import Mathlib.Data.List.Pairwise
import AsterVec.OpLogSessions

/-!
Histories of a log that is also truncated, at any lsn and as often as one likes.
-/

namespace AsterVec.OpLog

/-- `TruncateBelow`.  A segment that cannot be removed ends it; `removed` counts the ones
that went before. -/
def truncateBelow (removed : Option Nat) (lsn : Nat) (segs : List Segment) :
    Status × List Segment :=
  match removed with
  | none => (.ok, removeSegments (obsoleteSegments lsn segs) segs)
  | some count =>
      (if count < (obsoleteSegments lsn segs).length then .ioError "cannot remove" else .ok,
        removeSegments ((obsoleteSegments lsn segs).take count) segs)

/-- The log, when it is open, its directory, and the records accepted so far.  A process
ends at any time. -/
inductive Histories : Option Log → List Segment → List OpRecord → Prop where
  | nil : Histories none [] []
  | removed {segs : List Segment} {accepted : List OpRecord} {firstLsn : Nat}
      (hhistory : Histories none segs accepted)
      (hstale : firstLsn ∈ staleSegments (nextLsnAfter accepted) segs) :
      Histories none (removeSegment firstLsn segs) accepted
  | opened {segs segs' : List Segment} {accepted : List OpRecord} {log : Log}
      {fault : Option Fault} {segmentBytes : Nat}
      (hhistory : Histories none segs accepted)
      (hopen : openLog fault (nextLsnAfter accepted) segmentBytes segs = (.ok, log, segs')) :
      Histories (some log) segs' accepted
  | refusedOpen {segs segs' : List Segment} {accepted : List OpRecord} {log : Log}
      {status : Status} {fault : Option Fault} {segmentBytes : Nat}
      (hhistory : Histories none segs accepted)
      (hopen : openLog fault (nextLsnAfter accepted) segmentBytes segs = (status, log, segs')) :
      Histories none segs' accepted
  | appended {segs segs' : List Segment} {accepted : List OpRecord} {log log' : Log}
      {rec : OpRecord} {fault : Option Fault} {lsn : Nat}
      (hhistory : Histories (some log) segs accepted)
      (hfits : rec.bodyLength ≤ kMaxBodyBytes → OpRecord.Fits { rec with lsn := log.nextLsn })
      (happend : append fault rec log segs = (.ok lsn, log', segs')) :
      Histories (some log') segs' (accepted ++ [{ rec with lsn := lsn }])
  | refused {segs segs' : List Segment} {accepted : List OpRecord} {log log' : Log}
      {rec : OpRecord} {fault : Option Fault} {status : Status}
      (hhistory : Histories (some log) segs accepted)
      (hfits : rec.bodyLength ≤ kMaxBodyBytes → OpRecord.Fits { rec with lsn := log.nextLsn })
      (happend : append fault rec log segs = (.error status, log', segs')) :
      Histories (some log') segs' accepted
  | truncated {segs : List Segment} {accepted : List OpRecord} {log : Log}
      (removed : Option Nat) (lsn : Nat) (hhistory : Histories (some log) segs accepted) :
      Histories (some log) (truncateBelow removed lsn segs).2 accepted
  | ended {segs : List Segment} {accepted : List OpRecord} {log : Log}
      (hhistory : Histories (some log) segs accepted) : Histories none segs accepted

/-! What a truncation removes -/

/-- The segments that stay are the newest ones, and the oldest of them reaches down to the
cut. -/
def Keeps (lsn : Nat) (segs kept : List Segment) : Prop :=
  ∃ gone, segs = gone ++ kept ∧
    (gone = [] ∨ ∃ next rest, kept = next :: rest ∧ next.firstLsn ≤ lsn)

theorem keeps_removeObsolete (lsn count : Nat) {segs : List Segment}
    (hascending : segs.Pairwise fun earlier later => earlier.firstLsn < later.firstLsn) :
    Keeps lsn segs (removeSegments ((obsoleteSegments lsn segs).take count) segs) := by
  induction count generalizing segs with
  | zero => exact ⟨[], rfl, .inl rfl⟩
  | succ count ih =>
      match segs with
      | [] => exact ⟨[], rfl, .inl rfl⟩
      | [seg] => exact ⟨[], rfl, .inl rfl⟩
      | seg :: next :: segs =>
          rw [obsoleteSegments]
          split
          · exact ⟨[], rfl, .inl rfl⟩
          · rename_i hle
            obtain ⟨gone, hsegs, hcut⟩ := ih (List.Pairwise.of_cons hascending)
            have hremoved : removeSegments ((seg.firstLsn :: obsoleteSegments lsn
                (next :: segs)).take (count + 1)) (seg :: next :: segs) =
                removeSegments ((obsoleteSegments lsn (next :: segs)).take count)
                  (next :: segs) := by
              rw [List.take_succ_cons]
              change removeSegments _ (removeSegment seg.firstLsn (seg :: next :: segs)) = _
              rw [removeSegment_head hascending]
            rw [hremoved]
            refine ⟨seg :: gone, by rw [List.cons_append, ← hsegs], .inr ?_⟩
            rcases hcut with rfl | hreach
            · rw [← List.nil_append (removeSegments _ _), ← hsegs]
              exact ⟨next, segs, rfl, Nat.not_lt.mp hle⟩
            · exact hreach

theorem keeps_truncateBelow (lsn : Nat) {segs : List Segment} (removed : Option Nat)
    (hascending : segs.Pairwise fun earlier later => earlier.firstLsn < later.firstLsn) :
    Keeps lsn segs (truncateBelow removed lsn segs).2 := by
  cases removed with
  | none =>
      have hall := keeps_removeObsolete lsn (obsoleteSegments lsn segs).length
        hascending
      rwa [List.take_length] at hall
  | some count => exact keeps_removeObsolete lsn count hascending

/-- A scan from the cut on skips what a truncation removes. -/
theorem Keeps.scan_eq {lsn fromLsn : Nat} {segs kept : List Segment}
    (hkeeps : Keeps lsn segs kept)
    (hascending : segs.Pairwise fun earlier later => earlier.firstLsn < later.firstLsn)
    (hfrom : lsn ≤ fromLsn) : scan fromLsn kept = scan fromLsn segs := by
  obtain ⟨gone, rfl, rfl | ⟨next, rest, rfl, hle⟩⟩ := hkeeps
  · rfl
  · unfold scan
    generalize (⟨[], fromLsn, 0, false⟩ : ScanState) = st
    induction gone with
    | nil => rfl
    | cons seg gone ih =>
        have hskip : endsBefore fromLsn (gone ++ next :: rest) = true := by
          cases gone with
          | nil => simpa [endsBefore] using hle.trans hfrom
          | cons second gone =>
              have hbelow : second.firstLsn < next.firstLsn := by
                have htail := List.Pairwise.of_cons hascending
                exact List.rel_of_pairwise_cons htail (by simp)
              simpa [endsBefore] using (hbelow.le.trans hle).trans hfrom
        have hshorter : scanSegments fromLsn (seg :: gone ++ next :: rest) st =
            scanSegments fromLsn (gone ++ next :: rest) st := by
          rw [List.cons_append, scanSegments, if_pos hskip]
        rw [hshorter]
        exact ih (List.Pairwise.of_cons hascending)

/-! Appending behind a truncation -/

/-- Segments that no append touches. -/
def Untouched (log : Log) (gone : List Segment) : Prop :=
  ∀ seg ∈ gone, log.fd ≠ some seg.firstLsn ∧ seg.firstLsn < log.nextLsn

theorem writeAll_untouched {fd : Option Nat} {gone : List Segment}
    (hgone : ∀ seg ∈ gone, fd ≠ some seg.firstLsn) (bytes : List UInt8) (kept : List Segment) :
    writeAll fd bytes (gone ++ kept) = gone ++ writeAll fd bytes kept := by
  unfold writeAll
  rw [List.map_append]
  congr 1
  rw [List.map_congr_left, List.map_id]
  exact fun seg hseg => if_neg (hgone seg hseg)

theorem createSegment_untouched {firstLsn : Nat} {gone : List Segment}
    (hgone : ∀ seg ∈ gone, seg.firstLsn < firstLsn) (kept : List Segment) :
    createSegment firstLsn (gone ++ kept) = gone ++ createSegment firstLsn kept := by
  obtain ⟨hall, hnone⟩ := filter_lt_eq_self hgone
  unfold createSegment
  rw [List.filter_append, List.filter_append, hall, hnone, List.append_assoc, List.nil_append]

theorem rotate_untouched {log : Log} {gone : List Segment} (hgone : Untouched log gone)
    (fault : Option Fault) (kept : List Segment) :
    rotate fault log (gone ++ kept) =
        ((rotate fault log kept).1, (rotate fault log kept).2.1,
          gone ++ (rotate fault log kept).2.2) ∧
      ∀ seg ∈ gone, (rotate fault log kept).2.1.fd ≠ some seg.firstLsn := by
  unfold rotate
  split
  · unfold openSegmentLocked
    split
    · exact ⟨rfl, fun seg _ => by rintro ⟨⟩⟩
    · rw [createSegment_untouched fun seg hseg => (hgone seg hseg).2]
      refine ⟨rfl, fun seg hseg heq => ?_⟩
      have hlt := (hgone seg hseg).2
      rw [← Option.some.inj heq] at hlt
      exact absurd hlt (lt_irrefl _)
  · exact ⟨rfl, fun seg hseg => (hgone seg hseg).1⟩

/-- An append does the same whether the older segments are there or not. -/
theorem append_untouched {log : Log} {gone : List Segment}
    (hgone : log.broken = false → Untouched log gone) (fault : Option Fault) (rec : OpRecord)
    (kept : List Segment) :
    append fault rec log (gone ++ kept) =
      ((append fault rec log kept).1, (append fault rec log kept).2.1,
        gone ++ (append fault rec log kept).2.2) := by
  unfold append
  split
  · rfl
  · split
    · rfl
    · rename_i hok
      obtain ⟨hrotate, hfd⟩ := rotate_untouched (hgone (Bool.not_eq_true _ ▸ hok)) fault kept
      rw [hrotate]
      generalize rotate fault log kept = rotated at hfd ⊢
      obtain ⟨status, log', kept'⟩ := rotated
      cases status with
      | ok =>
          simp only
          unfold writeRecord
          split
          · split
            · rfl
            · rw [writeAll_untouched hfd]
          · rw [writeAll_untouched hfd]
      | _ => rfl

/-! The segment that is written to -/

/-- The open segment is the newest one. -/
def Log.CurrentIn (log : Log) (segs : List Segment) : Prop :=
  ∀ current, log.fd = some current →
    ∃ front seg, segs = front ++ [seg] ∧ seg.firstLsn = current

theorem currentIn_writeAll {log : Log} {segs : List Segment} (hcurrent : log.CurrentIn segs)
    (fd : Option Nat) (bytes : List UInt8) : log.CurrentIn (writeAll fd bytes segs) := by
  intro current hfd
  obtain ⟨front, seg, rfl, hseg⟩ := hcurrent current hfd
  refine ⟨writeAll fd bytes front, _, List.map_append .., ?_⟩
  beta_reduce
  split
  · exact hseg
  · exact hseg

theorem currentIn_createSegment {log : Log} {segs : List Segment} {firstLsn : Nat}
    (hbelow : ∀ seg ∈ segs, seg.firstLsn < firstLsn) (hfd : log.fd = some firstLsn) :
    log.CurrentIn (createSegment firstLsn segs) := by
  intro current hcurrent
  rw [createSegment_eq hbelow]
  exact ⟨segs, ⟨firstLsn, []⟩, rfl, Option.some.inj (hfd.symm.trans hcurrent)⟩

theorem currentIn_rotate {log : Log} {lo : Nat} {segs : List Segment} {recs : List OpRecord}
    (hlive : Live log lo segs recs) (hok : log.broken = false) (hcurrent : log.CurrentIn segs)
    (fault : Option Fault) :
    (rotate fault log segs).2.1.CurrentIn (rotate fault log segs).2.2 := by
  unfold rotate
  split
  · rename_i hfull
    unfold openSegmentLocked
    split
    · rintro _ ⟨⟩
    · apply currentIn_createSegment _ rfl
      have hnext := hlive.next
      have hpos := hlive.segment_pos
      rcases hlive.writable hok with ⟨hsealed, hown, hfd, hoffset⟩
      rename_i front before own
      have hsome : own ≠ [] := by
        rintro rfl
        rw [hoffset] at hfull
        exact absurd hfull (Nat.not_le.mpr hpos)
      have hlength := List.length_pos_iff.mpr hsome
      rw [List.length_append] at hnext
      intro seg hseg
      rcases List.mem_append.mp hseg with hfront | hlast
      · have hlt := (hsealed.firstLsn_lt seg hfront).2
        omega
      · rw [List.mem_singleton.mp hlast]
        change lo + before.length < log.nextLsn
        omega
  · exact hcurrent

theorem currentIn_append {log : Log} {lo : Nat} {segs : List Segment} {recs : List OpRecord}
    (hlive : Live log lo segs recs) (hcurrent : log.CurrentIn segs) (fault : Option Fault)
    (rec : OpRecord) :
    (append fault rec log segs).2.1.CurrentIn (append fault rec log segs).2.2 := by
  unfold append
  split
  · exact hcurrent
  · split
    · exact hcurrent
    · rename_i hok
      have hrotated := currentIn_rotate hlive (Bool.not_eq_true _ ▸ hok) hcurrent fault
      generalize rotate fault log segs = rotated at hrotated ⊢
      obtain ⟨status, log', segs'⟩ := rotated
      cases status with
      | ok =>
          simp only
          unfold writeRecord
          split
          · split
            · exact hrotated
            · exact currentIn_writeAll hrotated _ _
          · exact currentIn_writeAll hrotated _ _
      | _ => exact hrotated

/-! Histories -/

/-- What a directory and its log have after any history: the records from `lo` on. -/
structure Stands (log : Option Log) (segs : List Segment) (accepted : List OpRecord)
    (lo : Nat) : Prop where
  positive : 1 ≤ lo
  bound : lo ≤ accepted.length + 1
  numbered : Numbered 1 accepted
  holds : Holds lo segs (accepted.drop (lo - 1))
  live : ∀ opened, log = some opened → Live opened lo segs (accepted.drop (lo - 1))
  current : ∀ opened, log = some opened → opened.CurrentIn segs

namespace Stands

variable {segs segs' : List Segment} {accepted : List OpRecord} {lo : Nat} {log log' : Log}

theorem length_drop {log : Option Log} (hstands : Stands log segs accepted lo) :
    lo + (accepted.drop (lo - 1)).length = nextLsnAfter accepted := by
  have hpositive := hstands.positive
  have hbound := hstands.bound
  rw [nextLsnAfter_eq hstands.numbered, List.length_drop]
  omega

/-- A directory that no process has open. -/
theorem closed {log : Option Log} (hstands : Stands log segs accepted lo)
    (hholds : Holds lo segs' (accepted.drop (lo - 1))) : Stands none segs' accepted lo :=
  { hstands with
    holds := hholds
    live := by rintro _ ⟨⟩
    current := by rintro _ ⟨⟩ }

/-- A log that holds the records, and writes to the newest segment. -/
theorem running {log : Option Log} (hstands : Stands log segs accepted lo)
    (hlive : Live log' lo segs' (accepted.drop (lo - 1))) (hcurrent : log'.CurrentIn segs') :
    Stands (some log') segs' accepted lo :=
  { hstands with
    holds := hlive.holds
    live := by
      rintro _ ⟨⟩
      exact hlive
    current := by
      rintro _ ⟨⟩
      exact hcurrent }

theorem opened (hstands : Stands none segs accepted lo) {fault : Option Fault}
    {segmentBytes : Nat}
    (hopen : openLog fault (nextLsnAfter accepted) segmentBytes segs = (.ok, log, segs')) :
    Stands (some log) segs' accepted lo := by
  have hlength := hstands.length_drop
  have hlive := (live_openLog hstands.holds fault segmentBytes).2
  have hsealed := sealed_removeSegments hstands.holds
  rw [hlength, hopen] at hlive
  rw [hlength] at hsealed
  refine hstands.running (hlive rfl) ?_
  unfold openLog openSegmentLocked at hopen
  split at hopen
  · cases hopen
  · split at hopen
    · cases hopen
    · simp only [Prod.mk.injEq] at hopen
      obtain ⟨-, rfl, rfl⟩ := hopen
      apply currentIn_createSegment _ rfl
      intro seg hseg
      have hlt := (hsealed.firstLsn_lt seg hseg).2
      rwa [hlength] at hlt

theorem appended (hstands : Stands (some log) segs accepted lo) {rec : OpRecord}
    {fault : Option Fault} {lsn : Nat}
    (hfits : rec.bodyLength ≤ kMaxBodyBytes → OpRecord.Fits { rec with lsn := log.nextLsn })
    (happend : append fault rec log segs = (.ok lsn, log', segs')) :
    lsn = accepted.length + 1 ∧
      Stands (some log') segs' (accepted ++ [{ rec with lsn := lsn }]) lo := by
  have hlive := hstands.live log rfl
  have hresult := appended_append fault hlive hfits
  have hcurrent := currentIn_append hlive (hstands.current log rfl) fault rec
  rw [happend] at hresult hcurrent
  obtain ⟨hlsn, hlive'⟩ := hresult
  have hpositive := hstands.positive
  have hbound := hstands.bound
  have hdrop : (accepted ++ [{ rec with lsn := lsn }]).drop (lo - 1) =
      accepted.drop (lo - 1) ++ [{ rec with lsn := lsn }] :=
    List.drop_append_of_le_length (by omega)
  have hlength := hstands.length_drop
  rw [nextLsnAfter_eq hstands.numbered] at hlength
  have hnumbered : Numbered 1 (accepted ++ [{ rec with lsn := lsn }]) := by
    have hlast := (Numbered.append.mp hlive'.holds.numbered).2
    rw [hlength] at hlast
    exact Numbered.append.mpr ⟨hstands.numbered, hlast⟩
  refine ⟨by omega, hpositive, ?_, hnumbered, ?_, ?_, ?_⟩
  · rw [List.length_append]
    omega
  · rw [hdrop]
    exact hlive'.holds
  · rintro _ ⟨⟩
    rw [hdrop]
    exact hlive'
  · rintro _ ⟨⟩
    exact hcurrent

theorem refused (hstands : Stands (some log) segs accepted lo) {rec : OpRecord}
    {fault : Option Fault} {status : Status}
    (hfits : rec.bodyLength ≤ kMaxBodyBytes → OpRecord.Fits { rec with lsn := log.nextLsn })
    (happend : append fault rec log segs = (.error status, log', segs')) :
    Stands (some log') segs' accepted lo := by
  have hlive := hstands.live log rfl
  have hresult := appended_append fault hlive hfits
  have hcurrent := currentIn_append hlive (hstands.current log rfl) fault rec
  rw [happend] at hresult hcurrent
  exact hstands.running hresult hcurrent

theorem removedObsolete (hstands : Stands (some log) segs accepted lo) (lsn count : Nat) :
    ∃ lo', Live log lo' (removeSegments ((obsoleteSegments lsn segs).take count) segs)
      (accepted.drop (lo' - 1)) ∧ 1 ≤ lo' ∧ lo' ≤ accepted.length + 1 := by
  have hlive := hstands.live log rfl
  have hpositive := hstands.positive
  have hbound := hstands.bound
  clear hstands
  induction count generalizing segs lo with
  | zero => exact ⟨lo, hlive, hpositive, hbound⟩
  | succ count ih =>
      cases hobsolete : obsoleteSegments lsn segs with
      | nil => exact ⟨lo, hlive, hpositive, hbound⟩
      | cons firstLsn more =>
          obtain ⟨own, later, hrecs, -, hlive', hmore⟩ := live_removeObsolete hlive hobsolete
          have hlength := congrArg List.length hrecs
          rw [List.length_drop, List.length_append] at hlength
          have hlater : later = accepted.drop (lo + own.length - 1) := by
            have hsplit : lo + own.length - 1 = lo - 1 + own.length := by omega
            rw [hsplit, ← List.drop_drop, hrecs, List.drop_left]
          rw [hlater] at hlive'
          have hrest := ih hlive' (by omega) (by omega)
          rw [hmore] at hrest
          exact hrest

end Stands

theorem Keeps.currentIn {lsn : Nat} {segs kept : List Segment} {log : Log}
    (hkeeps : Keeps lsn segs kept) (hcurrent : log.CurrentIn segs) : log.CurrentIn kept := by
  intro current hfd
  obtain ⟨front, seg, hsegs, hseg⟩ := hcurrent current hfd
  obtain ⟨gone, rfl, rfl | ⟨next, rest, rfl, -⟩⟩ := hkeeps
  · exact ⟨front, seg, hsegs, hseg⟩
  · obtain ⟨front', last, hlast⟩ : ∃ front' last, next :: rest = front' ++ [last] :=
      ⟨_, _, (List.dropLast_append_getLast (List.cons_ne_nil next rest)).symm⟩
    rw [hlast, ← List.append_assoc] at hsegs
    obtain ⟨-, hsame⟩ := List.append_inj' hsegs rfl
    exact ⟨front', last, hlast, (List.singleton_inj.mp hsame) ▸ hseg⟩

/-- A truncation keeps the records from some later lsn on. -/
theorem Stands.truncated {segs : List Segment} {accepted : List OpRecord} {lo : Nat}
    {log : Log} (hstands : Stands (some log) segs accepted lo) (removed : Option Nat)
    (lsn : Nat) : ∃ lo', Stands (some log) (truncateBelow removed lsn segs).2 accepted lo' := by
  have hkeeps := keeps_truncateBelow lsn removed hstands.holds.ascending
  have hcurrent := hkeeps.currentIn (hstands.current log rfl)
  have hstep : ∀ count, (truncateBelow removed lsn segs).2 =
      removeSegments ((obsoleteSegments lsn segs).take count) segs →
        ∃ lo', Stands (some log) (truncateBelow removed lsn segs).2 accepted lo' := by
    intro count hcount
    obtain ⟨lo', hlive, hpositive, hbound⟩ := hstands.removedObsolete lsn count
    rw [← hcount] at hlive
    refine ⟨lo', hpositive, hbound, hstands.numbered, hlive.holds, ?_, ?_⟩
    · rintro _ ⟨⟩
      exact hlive
    · rintro _ ⟨⟩
      exact hcurrent
  cases removed with
  | none => exact hstep (obsoleteSegments lsn segs).length (by rw [List.take_length]; rfl)
  | some count => exact hstep count rfl

theorem Histories.stands {log : Option Log} {segs : List Segment} {accepted : List OpRecord}
    (hhistory : Histories log segs accepted) : ∃ lo, Stands log segs accepted lo := by
  induction hhistory with
  | nil =>
      exact ⟨1, Nat.le_refl 1, Nat.le_refl 1, trivial, .closed (.nil 1), by rintro _ ⟨⟩,
        by rintro _ ⟨⟩⟩
  | removed _ hstale ih =>
      obtain ⟨lo, hstands⟩ := ih
      rw [← hstands.length_drop] at hstale
      exact ⟨lo, hstands.closed (hstands.holds.removeSegment (mem_staleSegments hstale))⟩
  | opened _ hopen ih =>
      obtain ⟨lo, hstands⟩ := ih
      exact ⟨lo, hstands.opened hopen⟩
  | @refusedOpen segs segs' accepted log status fault segmentBytes _ hopen ih =>
      obtain ⟨lo, hstands⟩ := ih
      have hholds := (live_openLog hstands.holds fault segmentBytes).1
      rw [hstands.length_drop, hopen] at hholds
      exact ⟨lo, hstands.closed hholds⟩
  | appended _ hfits happend ih =>
      obtain ⟨lo, hstands⟩ := ih
      exact ⟨lo, (hstands.appended hfits happend).2⟩
  | refused _ hfits happend ih =>
      obtain ⟨lo, hstands⟩ := ih
      exact ⟨lo, hstands.refused hfits happend⟩
  | truncated removed lsn _ ih =>
      obtain ⟨lo, hstands⟩ := ih
      exact hstands.truncated removed lsn
  | ended _ ih =>
      obtain ⟨lo, hstands⟩ := ih
      exact ⟨lo, hstands.closed hstands.holds⟩

/-- The segments of an open log that a truncation removes are behind the one it writes
to. -/
theorem Keeps.untouched {lsn lo : Nat} {gone kept : List Segment} {log : Log}
    {recs : List OpRecord} (hlive : Live log lo (gone ++ kept) recs)
    (hcut : gone = [] ∨ ∃ next rest, kept = next :: rest ∧ next.firstLsn ≤ lsn)
    (hok : log.broken = false) : Untouched log gone := by
  rcases hcut with rfl | ⟨next, rest, rfl, -⟩
  · exact fun seg hseg => by cases hseg
  · have hnext := hlive.next
    have hascending := hlive.holds.ascending
    obtain ⟨front', last, hlast⟩ : ∃ front' last, next :: rest = front' ++ [last] :=
      ⟨_, _, (List.dropLast_append_getLast (List.cons_ne_nil next rest)).symm⟩
    have hwritable := hlive.writable hok
    rw [hlast] at hascending hwritable
    generalize hall : gone ++ (front' ++ [last]) = all at hwritable hascending
    rcases hwritable with ⟨hsealed, hown, hfd, -⟩
    rename_i front before own
    rw [← List.append_assoc] at hall
    obtain ⟨rfl, hsame⟩ := List.append_inj' hall rfl
    rw [List.length_append] at hnext
    intro seg hseg
    have hlt := (hsealed.firstLsn_lt seg (List.mem_append_left _ hseg)).2
    refine ⟨fun heq => ?_, by omega⟩
    have hname := Option.some.inj (hfd.symm.trans heq)
    omega

/-- No two segments have one name. -/
theorem name_injective {segs : List Segment}
    (hascending : segs.Pairwise fun earlier later => earlier.firstLsn < later.firstLsn)
    {seg other : Segment} (hseg : seg ∈ segs) (hother : other ∈ segs)
    (hname : seg.firstLsn = other.firstLsn) : seg = other := by
  by_contra hne
  have hdistinct : segs.Pairwise fun a b => a.firstLsn ≠ b.firstLsn :=
    hascending.imp fun hlt => hlt.ne
  have hsymm : Std.Symm fun a b : Segment => a.firstLsn ≠ b.firstLsn :=
    ⟨fun _ _ hab => hab.symm⟩
  exact hdistinct.forall hseg hother hne hname

theorem append_ne_nil {segs : List Segment} (hsome : segs ≠ []) (fault : Option Fault)
    (rec : OpRecord) (log : Log) : (append fault rec log segs).2.2 ≠ [] := by
  have hrotate : (rotate fault log segs).2.2 ≠ [] := by
    unfold rotate openSegmentLocked createSegment
    split
    · split
      · exact hsome
      · simp
    · exact hsome
  unfold append
  split
  · exact hsome
  · split
    · exact hsome
    · generalize rotate fault log segs = rotated at hrotate ⊢
      obtain ⟨status, log', segs'⟩ := rotated
      cases status with
      | ok =>
          simp only
          unfold writeRecord writeAll
          split
          · split
            · exact hrotate
            · simpa using hrotate
          · simpa using hrotate
      | _ => exact hrotate

theorem Holds.head {lo : Nat} {seg : Segment} {segs : List Segment} {recs : List OpRecord}
    (hholds : Holds lo (seg :: segs) recs) : seg.firstLsn = lo := by
  cases segs with
  | nil => exact hholds.of_single.1
  | cons next segs =>
      obtain ⟨own, later, -, hseg, -⟩ := hholds.tail
      exact hseg.1

/-- Every append leaves a log that stands from the same lsn on. -/
theorem Stands.append {segs : List Segment} {accepted : List OpRecord} {lo : Nat} {log : Log}
    (hstands : Stands (some log) segs accepted lo) (fault : Option Fault) {rec : OpRecord}
    (hfits : rec.bodyLength ≤ kMaxBodyBytes → OpRecord.Fits { rec with lsn := log.nextLsn }) :
    ∃ accepted', Stands (some (OpLog.append fault rec log segs).2.1)
        (OpLog.append fault rec log segs).2.2 accepted' lo ∧
      ∀ lsn, (OpLog.append fault rec log segs).1 = .ok lsn →
        lsn = accepted.length + 1 ∧ accepted' = accepted ++ [{ rec with lsn := lsn }] := by
  cases hresult : OpLog.append fault rec log segs with
  | mk result rest =>
      obtain ⟨log', segs'⟩ := rest
      cases result with
      | ok lsn =>
          obtain ⟨hlsn, hgrown⟩ := hstands.appended hfits hresult
          refine ⟨_, hgrown, ?_⟩
          rintro _ ⟨⟩
          exact ⟨hlsn, rfl⟩
      | error status => exact ⟨accepted, hstands.refused hfits hresult, by rintro _ ⟨⟩⟩

/-- A scan from an lsn the log reaches back to delivers what was accepted from there on. -/
theorem Stands.scans {log : Option Log} {segs : List Segment} {accepted : List OpRecord}
    {lo fromLsn : Nat} (hstands : Stands log segs accepted lo) (hfrom : lo ≤ fromLsn) :
    (scan fromLsn segs).delivered = accepted.filter (fromLsn ≤ ·.lsn) ∧
      (scan fromLsn segs).gap = false := by
  obtain ⟨hdelivered, hgap⟩ := scan_of_holds hstands.holds hfrom
  refine ⟨?_, hgap⟩
  have hpositive := hstands.positive
  rw [hdelivered, filter_numbered hstands.holds.numbered, filter_numbered hstands.numbered,
    List.drop_drop]
  congr 1
  omega

/-- A truncation at `lsn` changes no scan from `lsn` on, keeps the segment that is written
to, and a later append goes on as it would have without it: it gets the next lsn, and every
scan that reaches back no further than the log delivers its record behind the others. -/
theorem Histories.truncateBelow_keeps {log : Log} {segs : List Segment}
    {accepted : List OpRecord} (hhistory : Histories (some log) segs accepted)
    (removed : Option Nat) (lsn : Nat) :
    let kept := (truncateBelow removed lsn segs).2
    (∀ fromLsn, lsn ≤ fromLsn → scan fromLsn kept = scan fromLsn segs) ∧
      (∀ seg ∈ segs, log.fd = some seg.firstLsn → seg ∈ kept) ∧
      ∀ fault rec,
        (rec.bodyLength ≤ kMaxBodyBytes → OpRecord.Fits { rec with lsn := log.nextLsn }) →
        let after := append fault rec log kept
        let untruncated := append fault rec log segs
        after.1 = untruncated.1 ∧ after.2.1 = untruncated.2.1 ∧
          (∀ fromLsn, lsn ≤ fromLsn →
            scan fromLsn after.2.2 = scan fromLsn untruncated.2.2) ∧
          ∀ got, after.1 = .ok got → got = accepted.length + 1 ∧
            ∀ first rest fromLsn, kept = first :: rest → first.firstLsn ≤ fromLsn →
              (scan fromLsn after.2.2).delivered =
                  (accepted ++ [{ rec with lsn := got }]).filter (fromLsn ≤ ·.lsn) ∧
                (scan fromLsn after.2.2).gap = false := by
  intro kept
  obtain ⟨lo, hstands⟩ := hhistory.stands
  obtain ⟨lo', hkept⟩ := hstands.truncated removed lsn
  change Stands (some log) kept accepted lo' at hkept
  have hkeeps : Keeps lsn segs kept := keeps_truncateBelow lsn removed hstands.holds.ascending
  refine ⟨fun fromLsn hfrom => hkeeps.scan_eq hstands.holds.ascending hfrom,
    fun seg hseg hfd => ?_, fun fault rec hfits => ?_⟩
  · obtain ⟨front, current, hlast, hname⟩ := hkeeps.currentIn (hstands.current log rfl) _ hfd
    obtain ⟨gone, hsegs, -⟩ := hkeeps
    have hcurrent : current ∈ kept := by
      rw [hlast]
      simp
    have hascending := hstands.holds.ascending
    have hboth : current ∈ segs := by
      rw [hsegs]
      exact List.mem_append_right _ hcurrent
    have hsame := name_injective hstands.holds.ascending hseg hboth hname.symm
    rw [hsame]
    exact hcurrent
  · obtain ⟨gone, hsegs, hcut⟩ := hkeeps
    have huntouched : log.broken = false → Untouched log gone :=
      Keeps.untouched (hsegs ▸ hstands.live log rfl) hcut
    have hcommutes := append_untouched huntouched fault rec kept
    rw [← hsegs] at hcommutes
    obtain ⟨accepted', hafter, hgot⟩ := hkept.append fault hfits
    obtain ⟨_, huntruncated, -⟩ := hstands.append fault hfits
    have hkeeps' : Keeps lsn (append fault rec log segs).2.2
        (append fault rec log kept).2.2 := by
      refine ⟨gone, by rw [hcommutes], hcut.imp_right ?_⟩
      rintro ⟨next, rest, hhead, hle⟩
      have hsome := append_ne_nil (hhead ▸ List.cons_ne_nil next rest) fault rec log
      obtain ⟨next', rest', hnext⟩ := List.exists_cons_of_ne_nil hsome
      refine ⟨next', rest', hnext, ?_⟩
      have hlow := hafter.holds
      have hlow' := hkept.holds
      rw [hnext] at hlow
      rw [hhead] at hlow'
      rw [hlow.head, ← hlow'.head]
      exact hle
    refine ⟨by rw [hcommutes], by rw [hcommutes],
      fun fromLsn hfrom => hkeeps'.scan_eq huntruncated.holds.ascending hfrom,
      fun got hok => ?_⟩
    obtain ⟨hlsn, rfl⟩ := hgot got hok
    refine ⟨hlsn, fun first rest fromLsn hhead hfrom => ?_⟩
    have hlow := hkept.holds
    rw [hhead] at hlow
    rw [hlow.head] at hfrom
    exact hafter.scans hfrom

/-- A log whose second record went into a segment of its own. -/
def smallSession : Log × List Segment := (openLog none 1 1 []).2

def oneRecord : Log × List Segment :=
  (append none insertSeven smallSession.1 smallSession.2).2

def twoRecords : Log × List Segment := (append none insertSeven oneRecord.1 oneRecord.2).2

theorem histories_twoRecords : Histories (some twoRecords.1) twoRecords.2
    ([{ insertSeven with lsn := 1 }] ++ [{ insertSeven with lsn := 2 }]) := by
  have hopened : Histories (some smallSession.1) smallSession.2 [] :=
    .opened .nil (show openLog none 1 1 [] = (.ok, smallSession.1, smallSession.2) from rfl)
  have hone : Histories (some oneRecord.1) oneRecord.2
      ([] ++ [{ insertSeven with lsn := 1 }]) :=
    .appended hopened (fun _ => insertSeven_fits (by decide))
      (show append none insertSeven smallSession.1 smallSession.2 = _ from rfl)
  exact .appended hone (fun _ => insertSeven_fits (by decide))
    (show append none insertSeven oneRecord.1 oneRecord.2 = _ from rfl)

/-- The first segment goes, and the second record is still delivered. -/
theorem twoRecords_truncated :
    twoRecords.2.length = 2 ∧ (truncateBelow none 2 twoRecords.2).2.length = 1 ∧
      scan 2 (truncateBelow none 2 twoRecords.2).2 = scan 2 twoRecords.2 :=
  ⟨rfl, rfl, (histories_twoRecords.truncateBelow_keeps none 2).1 2 (Nat.le_refl 2)⟩

end AsterVec.OpLog

import Mathlib.Data.List.Lemmas
import AsterVec.OpLogRecords

/-!
The operation log as a directory of segments: appending with rotation, removing
segments at either end, and the scan that replays it.
-/

namespace AsterVec

/-- What a call reports.  Texts are the source's without the paths and system
messages appended to them. -/
inductive Status where
  | ok
  | notFound (text : String)
  | invalidArgument (text : String)
  | ioError (text : String)
  | corruption (text : String)
  deriving DecidableEq, Repr

namespace OpLog

open AsterVec.LittleEndian

/-- A segment file; its name is the lsn of its first record. -/
structure Segment where
  firstLsn : Nat
  bytes : List UInt8
  deriving DecidableEq

/-- The log being appended to.  `fd` is the open segment. -/
structure Log where
  segmentBytes : Nat
  nextLsn : Nat
  fd : Option Nat
  offset : Nat
  broken : Bool
  deriving DecidableEq

/-- A system call of `Append` that fails.  A failed write leaves `written` bytes
behind unless the file can be cut back. -/
inductive Fault where
  | create
  | sync
  | write (written : Nat) (truncated : Bool)
  deriving DecidableEq

def kDefaultSegmentBytes : Nat := 64 <<< 20

def Log.make (nextLsn segmentBytes : Nat) : Log where
  segmentBytes := if segmentBytes = 0 then kDefaultSegmentBytes else segmentBytes
  nextLsn := nextLsn
  fd := none
  offset := 0
  broken := false

/-- Open a segment with `O_CREAT | O_TRUNC`. -/
def createSegment (firstLsn : Nat) (segs : List Segment) : List Segment :=
  segs.filter (·.firstLsn < firstLsn) ++
    ⟨firstLsn, []⟩ :: segs.filter (firstLsn < ·.firstLsn)

def removeSegment (firstLsn : Nat) (segs : List Segment) : List Segment :=
  segs.filter (·.firstLsn ≠ firstLsn)

/-- Append bytes to the open segment. -/
def writeAll (fd : Option Nat) (bytes : List UInt8) (segs : List Segment) :
    List Segment :=
  segs.map fun seg =>
    if fd = some seg.firstLsn then { seg with bytes := seg.bytes ++ bytes } else seg

def openSegmentLocked (fault : Option Fault) (log : Log) (segs : List Segment) :
    Status × Log × List Segment :=
  if fault = some .create then (.ioError "cannot open", { log with fd := none }, segs)
  else
    (if fault = some .sync then .ioError "cannot sync" else .ok,
      { log with fd := some log.nextLsn, offset := 0 }, createSegment log.nextLsn segs)

def writeRecord (fault : Option Fault) (rec : OpRecord) (log : Log)
    (segs : List Segment) : Except Status Nat × Log × List Segment :=
  match fault with
  | some (.write written truncated) =>
      if truncated then (.error (.ioError "operation log write failed"), log, segs)
      else
        (.error (.ioError "operation log write failed"), { log with broken := true },
          writeAll log.fd ((putRecord rec).dropLast.take written) segs)
  | _ =>
      (.ok log.nextLsn,
        { log with
          offset := log.offset + (putRecord rec).length
          nextLsn := log.nextLsn + 1 },
        writeAll log.fd (putRecord rec) segs)

/-- A new segment once the open one is full. -/
def rotate (fault : Option Fault) (log : Log) (segs : List Segment) :
    Status × Log × List Segment :=
  if log.segmentBytes ≤ log.offset then openSegmentLocked fault log segs
  else (.ok, log, segs)

def append (fault : Option Fault) (rec : OpRecord) (log : Log) (segs : List Segment) :
    Except Status Nat × Log × List Segment :=
  if kMaxBodyBytes < rec.bodyLength then
    (.error (.invalidArgument "log record too large"), log, segs)
  else if log.broken then
    (.error (.ioError "operation log unusable after an earlier error"), log, segs)
  else
    match rotate fault log segs with
    | (.ok, log, segs) => writeRecord fault { rec with lsn := log.nextLsn } log segs
    | (failed, log, segs) => (.error failed, { log with broken := true }, segs)

/-- Segments `Open` removes: those that start at or after the next lsn. -/
def staleSegments (nextLsn : Nat) (segs : List Segment) : List Nat :=
  (segs.filter (nextLsn ≤ ·.firstLsn)).map Segment.firstLsn

/-- Segments `TruncateBelow` removes, oldest first: every record of theirs is
below `lsn`, because the next segment starts at or below it. -/
def obsoleteSegments (lsn : Nat) : List Segment → List Nat
  | seg :: next :: segs =>
      if lsn < next.firstLsn then []
      else seg.firstLsn :: obsoleteSegments lsn (next :: segs)
  | _ => []

/-- Where a scan stands: what it delivered, the lsn it expects next, the bytes
it skipped, and whether it stopped at a missing lsn. -/
structure ScanState where
  delivered : List OpRecord
  expected : Nat
  droppedBytes : Nat
  gap : Bool
  deriving DecidableEq

/-- Scan the rest of one segment.  Every record takes a byte or more, so the
number of bytes bounds the rounds. -/
def scanSegment (fromLsn : Nat) : Nat → List UInt8 → ScanState → ScanState
  | 0, _, st => st
  | fuel + 1, bytes, st =>
      match getRecord bytes with
      | none => { st with droppedBytes := st.droppedBytes + bytes.length }
      | some (rec, rest) =>
          if rec.lsn < fromLsn then scanSegment fromLsn fuel rest st
          else if rec.lsn ≠ st.expected then { st with gap := true }
          else scanSegment fromLsn fuel rest
            { st with delivered := st.delivered ++ [rec], expected := st.expected + 1 }

/-- A segment ends before `fromLsn` when the next one starts at or below it. -/
def endsBefore (fromLsn : Nat) (later : List Segment) : Bool :=
  later.head?.elim false (·.firstLsn ≤ fromLsn)

def scanSegments (fromLsn : Nat) : List Segment → ScanState → ScanState
  | [], st => st
  | seg :: later, st =>
      if endsBefore fromLsn later then scanSegments fromLsn later st
      else
        let scanned := scanSegment fromLsn (seg.bytes.length + 1) seg.bytes st
        if scanned.gap then scanned else scanSegments fromLsn later scanned

/-- The records `Scan` hands to its callback when the callback accepts them all. -/
def scan (fromLsn : Nat) (segs : List Segment) : ScanState :=
  scanSegments fromLsn segs ⟨[], fromLsn, 0, false⟩

/-! What a directory holds -/

/-- Records that carry the lsns from `lo` on and fit their fields. -/
def Numbered : Nat → List OpRecord → Prop
  | _, [] => True
  | lo, rec :: recs => rec.lsn = lo ∧ rec.Fits ∧ Numbered (lo + 1) recs

def putRecords (recs : List OpRecord) : List UInt8 := recs.flatMap putRecord

/-- The bytes of a segment: complete records, and what a write that was cut
short left behind them. -/
def Segment.Has (seg : Segment) (lo : Nat) (own : List OpRecord) : Prop :=
  seg.firstLsn = lo ∧ Numbered lo own ∧
    ∃ torn, getRecord torn = none ∧ seg.bytes = putRecords own ++ torn

/-- Segments that hold the records from `lo` on, at least one each. -/
inductive Sealed : Nat → List Segment → List OpRecord → Prop where
  | nil (lo : Nat) : Sealed lo [] []
  | cons {lo : Nat} {seg : Segment} {own recs : List OpRecord} {segs : List Segment}
      (hseg : seg.Has lo own) (hown : own ≠ [])
      (hlater : Sealed (lo + own.length) segs recs) : Sealed lo (seg :: segs) (own ++ recs)

/-- A log directory that holds the records from `lo` on; only the newest segment
may be without one. -/
inductive Holds : Nat → List Segment → List OpRecord → Prop where
  | closed {lo : Nat} {segs : List Segment} {recs : List OpRecord}
      (hsealed : Sealed lo segs recs) : Holds lo segs recs
  | current {lo : Nat} {segs : List Segment} {recs own : List OpRecord} {seg : Segment}
      (hsealed : Sealed lo segs recs) (hseg : seg.Has (lo + recs.length) own) :
      Holds lo (segs ++ [seg]) (recs ++ own)

/-- The open log can take a record: the newest segment is the one it writes to,
and ends at its offset. -/
inductive Writable (log : Log) (lo : Nat) : List Segment → List OpRecord → Prop where
  | intro {segs : List Segment} {recs own : List OpRecord}
      (hsealed : Sealed lo segs recs) (hown : Numbered (lo + recs.length) own)
      (hfd : log.fd = some (lo + recs.length))
      (hoffset : log.offset = (putRecords own).length) :
      Writable log lo (segs ++ [⟨lo + recs.length, putRecords own⟩]) (recs ++ own)

/-- The open log and its directory. -/
structure Live (log : Log) (lo : Nat) (segs : List Segment) (recs : List OpRecord) :
    Prop where
  next : log.nextLsn = lo + recs.length
  segment_pos : 0 < log.segmentBytes
  holds : Holds lo segs recs
  writable : log.broken = false → Writable log lo segs recs

theorem Numbered.append {lo : Nat} {recs more : List OpRecord} :
    Numbered lo (recs ++ more) ↔ Numbered lo recs ∧ Numbered (lo + recs.length) more := by
  induction recs generalizing lo with
  | nil => simp [Numbered]
  | cons rec recs ih =>
      simp only [List.cons_append, Numbered, ih, List.length_cons, and_assoc]
      rw [Nat.add_right_comm, Nat.add_assoc]

theorem Sealed.numbered {lo : Nat} {segs : List Segment} {recs : List OpRecord}
    (hsealed : Sealed lo segs recs) : Numbered lo recs := by
  induction hsealed with
  | nil lo => trivial
  | cons hseg hown hlater ih => exact Numbered.append.mpr ⟨hseg.2.1, ih⟩

theorem Holds.numbered {lo : Nat} {segs : List Segment} {recs : List OpRecord}
    (hholds : Holds lo segs recs) : Numbered lo recs := by
  rcases hholds with hsealed | ⟨hsealed, hseg⟩
  · exact hsealed.numbered
  · exact Numbered.append.mpr ⟨hsealed.numbered, hseg.2.1⟩

/-- Every sealed segment starts below the next lsn. -/
theorem Sealed.firstLsn_lt {lo : Nat} {segs : List Segment} {recs : List OpRecord}
    (hsealed : Sealed lo segs recs) :
    ∀ seg ∈ segs, lo ≤ seg.firstLsn ∧ seg.firstLsn < lo + recs.length := by
  induction hsealed with
  | nil lo => simp
  | cons hseg hown hlater ih =>
      have hpos := List.length_pos_iff.mpr hown
      intro found hfound
      rw [List.length_append]
      rcases List.mem_cons.mp hfound with rfl | hfound
      · rw [hseg.1]
        omega
      · have hrange := ih found hfound
        omega

theorem Sealed.snoc {lo : Nat} {segs : List Segment} {recs own : List OpRecord}
    {seg : Segment} (hsealed : Sealed lo segs recs) (hseg : seg.Has (lo + recs.length) own)
    (hown : own ≠ []) : Sealed lo (segs ++ [seg]) (recs ++ own) := by
  induction hsealed with
  | nil lo =>
      have hone : Sealed lo [seg] (own ++ []) := .cons hseg hown (.nil _)
      rwa [List.append_nil] at hone
  | cons hfirst hne hlater ih =>
      rw [List.length_append, ← Nat.add_assoc] at hseg
      rw [List.cons_append, List.append_assoc]
      exact Sealed.cons hfirst hne (ih hseg)

theorem has_of_records {lo : Nat} {own : List OpRecord} (hown : Numbered lo own) :
    Segment.Has ⟨lo, putRecords own⟩ lo own :=
  ⟨rfl, hown, [], rfl, (List.append_nil _).symm⟩

theorem Writable.holds {log : Log} {lo : Nat} {segs : List Segment}
    {recs : List OpRecord} (hwritable : Writable log lo segs recs) : Holds lo segs recs := by
  rcases hwritable with ⟨hsealed, hown, hfd, hoffset⟩
  exact .current hsealed (has_of_records hown)

/-! Opening -/

theorem filter_lt_eq_self {segs : List Segment} {firstLsn : Nat}
    (hbelow : ∀ seg ∈ segs, seg.firstLsn < firstLsn) :
    segs.filter (·.firstLsn < firstLsn) = segs ∧
      segs.filter (firstLsn < ·.firstLsn) = [] := by
  constructor
  · exact List.filter_eq_self.mpr fun seg hseg => decide_eq_true (hbelow seg hseg)
  · apply List.filter_eq_nil_iff.mpr
    intro seg hseg
    have hlt := hbelow seg hseg
    simpa using hlt.le

theorem createSegment_eq {segs : List Segment} {firstLsn : Nat}
    (hbelow : ∀ seg ∈ segs, seg.firstLsn < firstLsn) :
    createSegment firstLsn segs = segs ++ [⟨firstLsn, []⟩] := by
  obtain ⟨hkept, hnone⟩ := filter_lt_eq_self hbelow
  rw [createSegment, hkept, hnone]

/-- A new segment behind sealed ones can be written to. -/
theorem writable_createSegment {log : Log} {lo : Nat} {segs : List Segment}
    {recs : List OpRecord} (hsealed : Sealed lo segs recs)
    (hfd : log.fd = some (lo + recs.length)) (hoffset : log.offset = 0) :
    Writable log lo (createSegment (lo + recs.length) segs) recs := by
  rw [createSegment_eq fun seg hseg => (hsealed.firstLsn_lt seg hseg).2]
  have hwritable : Writable log lo (segs ++ [⟨lo + recs.length, putRecords []⟩])
      (recs ++ []) := .intro hsealed trivial hfd hoffset
  rw [List.append_nil] at hwritable
  exact hwritable

/-- A directory whose segments all start below the next lsn is sealed. -/
theorem Holds.sealed {lo : Nat} {segs : List Segment} {recs : List OpRecord}
    (hholds : Holds lo segs recs)
    (hbelow : ∀ seg ∈ segs, seg.firstLsn < lo + recs.length) : Sealed lo segs recs := by
  rcases hholds with hsealed | ⟨hsealed, hseg⟩
  · exact hsealed
  · rename_i segs recs own seg
    apply hsealed.snoc hseg
    rintro rfl
    have hlt := hbelow seg (by simp)
    rw [hseg.1, List.append_nil] at hlt
    omega

/-- Removing one stale segment leaves a directory that holds the same records. -/
theorem Holds.removeSegment {lo : Nat} {segs : List Segment} {recs : List OpRecord}
    (hholds : Holds lo segs recs) {firstLsn : Nat} (hstale : lo + recs.length ≤ firstLsn) :
    Holds lo (removeSegment firstLsn segs) recs := by
  have hother : ∀ {kept : List Segment}, (∀ seg ∈ kept, seg.firstLsn < firstLsn) →
      OpLog.removeSegment firstLsn kept = kept := fun hbelow =>
    List.filter_eq_self.mpr fun seg hseg => decide_eq_true (hbelow seg hseg).ne
  rcases hholds with hsealed | ⟨hsealed, hseg⟩
  · rw [hother fun seg hseg => lt_of_lt_of_le (hsealed.firstLsn_lt seg hseg).2 hstale]
    exact .closed hsealed
  · rename_i segs recs own seg
    rw [List.length_append] at hstale
    have hkept : OpLog.removeSegment firstLsn segs = segs := hother fun found hfound => by
      have hrange := hsealed.firstLsn_lt found hfound
      omega
    have hsplit : OpLog.removeSegment firstLsn (segs ++ [seg]) =
        segs ++ OpLog.removeSegment firstLsn [seg] := by
      rw [OpLog.removeSegment, List.filter_append]
      exact congrArg (· ++ _) hkept
    rw [hsplit]
    rcases eq_or_ne (lo + recs.length) firstLsn with hfirst | hfirst
    · have hown : own = [] := List.length_eq_zero_iff.mp (by omega)
      subst hown
      rw [OpLog.removeSegment, List.filter_cons_of_neg (by simpa [hseg.1] using hfirst)]
      simpa using Holds.closed hsealed
    · rw [OpLog.removeSegment, List.filter_cons_of_pos (by simpa [hseg.1] using hfirst)]
      exact .current hsealed hseg

end OpLog

end AsterVec

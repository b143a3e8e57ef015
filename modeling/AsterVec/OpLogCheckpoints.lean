import AsterVec.OpLogSessions
import Mathlib.Logic.Relation

/-!
The operation log beside the checkpoints of its store.  A checkpoint is written to a
temporary file, the newest one becomes `.prev`, and only then the log is truncated, below
the checkpoint before.  An open replays the log behind the checkpoint it loads.
-/

namespace AsterVec.OpLog

/-- `lsm_vec_db.meta` or `.prev`: the `checkpoint_lsn` it was written with, and whether it
can still be read. -/
structure MetaFile where
  checkpointLsn : Nat
  complete : Bool
  deriving DecidableEq

/-- What the process does.  While it opens the store there is no log yet; the files of a
checkpoint change one after the other. -/
inductive Phase where
  | loaded
  | recovering (nextLsn : Nat)
  | writing (log : Log)
  | serialized (log : Log)
  | unlinked (log : Log)
  | rotated (log : Log)
  | installed (log : Log)

/-- The log of a process that has one open. -/
def Phase.log : Phase → Option Log
  | loaded | recovering _ => none
  | writing log | serialized log | unlinked log | rotated log | installed log => some log

/-- `checkpointLsn` is the lsn the index would be saved with; `mainCheckpointLsn` is where
the next truncation cuts. -/
structure Process where
  checkpointLsn : Nat
  mainCheckpointLsn : Nat
  phase : Phase

/-- The directory of a store and the process that has it open; `accepted` are the records
that `Append` accepted. -/
structure Directory where
  segs : List Segment
  accepted : List OpRecord
  main : Option MetaFile
  prev : Option MetaFile
  process : Option Process

def MetaFile.damaged (file : MetaFile) : MetaFile := { file with complete := false }

/-- The lsn that `recoverFromOpLog` opens the log at. -/
def nextLsnFrom (fromLsn : Nat) (segs : List Segment) : Nat :=
  match (scan fromLsn segs).delivered.getLast? with
  | none => fromLsn
  | some last => last.lsn + 1

namespace Directory

/-- The directory before the store was created. -/
def absent : Directory := ⟨[], [], none, none, none⟩

def enter (dir : Directory) (p : Process) (phase : Phase) : Directory :=
  { dir with process := some { p with phase := phase } }

/-- One step.  A call that fails inside a checkpoint ends the checkpoint; a kill, a close and
an open that fails end the process. -/
inductive Step (dir : Directory) : Directory → Prop where
  /-- A new store gets its metadata file before its log. -/
  | creates (hclosed : dir.process = none) (hmain : dir.main = none) (hprev : dir.prev = none) :
      Step dir { dir with
        segs := []
        main := some ⟨0, true⟩
        process := some ⟨0, 0, .loaded⟩ }
  | loads (file : MetaFile) (hclosed : dir.process = none) (hmain : dir.main = some file)
      (hcomplete : file.complete = true) :
      Step dir { dir with
        process := some ⟨file.checkpointLsn, file.checkpointLsn, .loaded⟩ }
  /-- A damaged main file is dropped. -/
  | fallsBack (file : MetaFile) (hclosed : dir.process = none)
      (hmain : ∀ damaged, dir.main = some damaged → damaged.complete = false)
      (hprev : dir.prev = some file) (hcomplete : file.complete = true) :
      Step dir { dir with
        main := none
        process := some ⟨file.checkpointLsn, file.checkpointLsn, .loaded⟩ }
  | scans (p : Process) (hp : dir.process = some p) (hphase : p.phase = .loaded) :
      Step dir (dir.enter p (.recovering (nextLsnFrom (p.checkpointLsn + 1) dir.segs)))
  | removesStale (p : Process) (nextLsn firstLsn : Nat) (hp : dir.process = some p)
      (hphase : p.phase = .recovering nextLsn)
      (hstale : firstLsn ∈ staleSegments nextLsn dir.segs) :
      Step dir { dir with segs := removeSegment firstLsn dir.segs }
  | opensLog (p : Process) (nextLsn segmentBytes : Nat) (fault : Option Fault) (log : Log)
      (segs : List Segment) (hp : dir.process = some p)
      (hphase : p.phase = .recovering nextLsn)
      (hopen : openLog fault nextLsn segmentBytes dir.segs = (.ok, log, segs)) :
      Step dir ({ dir with segs := segs }.enter { p with checkpointLsn := nextLsn - 1 }
        (.writing log))
  | refusesLog (p : Process) (nextLsn segmentBytes : Nat) (fault : Option Fault)
      (status : Status) (log : Log) (segs : List Segment) (hp : dir.process = some p)
      (hphase : p.phase = .recovering nextLsn)
      (hopen : openLog fault nextLsn segmentBytes dir.segs = (status, log, segs)) :
      Step dir { dir with segs := segs, process := none }
  | appends (p : Process) (log log' : Log) (rec : OpRecord) (fault : Option Fault) (lsn : Nat)
      (segs : List Segment) (hp : dir.process = some p) (hphase : p.phase = .writing log)
      (hfits : rec.bodyLength ≤ kMaxBodyBytes → OpRecord.Fits { rec with lsn := log.nextLsn })
      (happend : append fault rec log dir.segs = (.ok lsn, log', segs)) :
      Step dir ({ dir with
        segs := segs
        accepted := dir.accepted ++ [{ rec with lsn := lsn }] }.enter p (.writing log'))
  | refuses (p : Process) (log log' : Log) (rec : OpRecord) (fault : Option Fault)
      (status : Status) (segs : List Segment) (hp : dir.process = some p)
      (hphase : p.phase = .writing log)
      (hfits : rec.bodyLength ≤ kMaxBodyBytes → OpRecord.Fits { rec with lsn := log.nextLsn })
      (happend : append fault rec log dir.segs = (.error status, log', segs)) :
      Step dir ({ dir with segs := segs }.enter p (.writing log'))
  /-- Where the temporary file is not written in full, the checkpoint fails. -/
  | serializes (p : Process) (log : Log) (written : Bool) (hp : dir.process = some p)
      (hphase : p.phase = .writing log) :
      Step dir (dir.enter { p with checkpointLsn := log.nextLsn - 1 }
        (if written then .serialized log else .writing log))
  | unlinks (p : Process) (log : Log) (hp : dir.process = some p)
      (hphase : p.phase = .serialized log) (hmain : dir.main ≠ none) :
      Step dir ({ dir with prev := none }.enter p (.unlinked log))
  | links (p : Process) (log : Log) (hp : dir.process = some p)
      (hphase : p.phase = .unlinked log) :
      Step dir ({ dir with prev := dir.main }.enter p (.rotated log))
  /-- After a fallback there is no main file to keep. -/
  | keeps (p : Process) (log : Log) (hp : dir.process = some p)
      (hphase : p.phase = .serialized log) (hmain : dir.main = none) :
      Step dir (dir.enter p (.rotated log))
  | renames (p : Process) (log : Log) (hp : dir.process = some p)
      (hphase : p.phase = .rotated log) :
      Step dir ({ dir with main := some ⟨p.checkpointLsn, true⟩ }.enter p (.installed log))
  | truncates (p : Process) (log : Log) (firstLsn : Nat) (more : List Nat)
      (hp : dir.process = some p) (hphase : p.phase = .installed log)
      (hobsolete : obsoleteSegments (p.mainCheckpointLsn + 1) dir.segs = firstLsn :: more) :
      Step dir { dir with segs := removeSegment firstLsn dir.segs }
  | finishes (p : Process) (log : Log) (hp : dir.process = some p)
      (hphase : p.phase = .installed log) :
      Step dir (dir.enter { p with mainCheckpointLsn := p.checkpointLsn } (.writing log))
  | fails (p : Process) (log : Log) (hp : dir.process = some p)
      (hlog : p.phase.log = some log) : Step dir (dir.enter p (.writing log))
  | stops : Step dir { dir with process := none }
  | damagesMain (file : MetaFile) (hmain : dir.main = some file) :
      Step dir { dir with main := some file.damaged }
  /-- While both names are links to one file, both are damaged. -/
  | damagesBoth (file other : MetaFile) (hmain : dir.main = some file)
      (hprev : dir.prev = some other) :
      Step dir { dir with main := some file.damaged, prev := some other.damaged }

/-- The states of a store from its creation on. -/
def Reachable (dir : Directory) : Prop := Relation.ReflTransGen Step absent dir

/-- A scan from behind the checkpoint delivers every accepted record above it, in order and
without a gap. -/
def Covers (dir : Directory) (file : MetaFile) : Prop :=
  let wanted := dir.accepted.filter (file.checkpointLsn + 1 ≤ ·.lsn)
  (scan (file.checkpointLsn + 1) dir.segs).delivered = wanted ∧
    (scan (file.checkpointLsn + 1) dir.segs).gap = false ∧
    wanted.map OpRecord.lsn = List.range' (file.checkpointLsn + 1) wanted.length

/-! The invariant -/

/-- `lo` is the first lsn of the log; what came before it was truncated. -/
def kept (dir : Directory) (lo : Nat) : List OpRecord := dir.accepted.drop (lo - 1)

end Directory

/-- The log reaches back to what the file has. -/
structure MetaFile.Spans (file : MetaFile) (lo : Nat) (accepted : List OpRecord) : Prop where
  low : lo ≤ file.checkpointLsn + 1
  high : file.checkpointLsn ≤ accepted.length

/-- What an open process knows of the log and of the two files. -/
structure Process.Sound (p : Process) (dir : Directory) (lo : Nat) : Prop where
  live : ∀ log, p.phase.log = some log → Live log lo dir.segs (dir.kept lo)
  next : ∀ nextLsn, p.phase = .recovering nextLsn → nextLsn = dir.accepted.length + 1
  cut : lo ≤ p.mainCheckpointLsn + 1
  order : p.mainCheckpointLsn ≤ p.checkpointLsn
  high : p.checkpointLsn ≤ dir.accepted.length
  main : ∀ file, dir.main = some file → p.mainCheckpointLsn ≤ file.checkpointLsn
  fallback : dir.main = none →
    ∃ file, dir.prev = some file ∧ p.mainCheckpointLsn ≤ file.checkpointLsn
  unlinked : ∀ log, p.phase = .unlinked log → dir.main ≠ none
  rotated : ∀ log, p.phase = .rotated log ∨ p.phase = .installed log →
    ∀ file, dir.prev = some file → p.mainCheckpointLsn ≤ file.checkpointLsn
  installed : ∀ log, p.phase = .installed log →
    ∃ file, dir.main = some file ∧ file.checkpointLsn = p.checkpointLsn

/-- A file of the store that is loaded. -/
theorem MetaFile.Spans.sound {dir : Directory} {lo : Nat} {file : MetaFile}
    (hspans : file.Spans lo dir.accepted)
    (hmain : ∀ other, dir.main = some other → other = file)
    (hprev : dir.main = none → dir.prev = some file) :
    Process.Sound ⟨file.checkpointLsn, file.checkpointLsn, .loaded⟩ dir lo where
  live := by rintro _ ⟨⟩
  next := by rintro _ ⟨⟩
  cut := hspans.low
  order := Nat.le_refl _
  high := hspans.high
  main other hother := by rw [hmain other hother]
  fallback hnone := ⟨file, hprev hnone, Nat.le_refl _⟩
  unlinked := by rintro _ ⟨⟩
  rotated := by rintro _ (⟨⟨⟩⟩ | ⟨⟨⟩⟩)
  installed := by rintro _ ⟨⟩

/-- A process that goes on with its log, having changed no file. -/
theorem Process.Sound.writing {p : Process} {dir : Directory} {lo : Nat} {log : Log}
    (hsound : p.Sound dir lo)
    (hlive : Live log lo dir.segs (dir.kept lo)) :
    Process.Sound { p with phase := .writing log } dir lo where
  live := by
    rintro _ ⟨⟩
    exact hlive
  next := by rintro _ ⟨⟩
  cut := hsound.cut
  order := hsound.order
  high := hsound.high
  main := hsound.main
  fallback := hsound.fallback
  unlinked := by rintro _ ⟨⟩
  rotated := by rintro _ (⟨⟨⟩⟩ | ⟨⟨⟩⟩)
  installed := by rintro _ ⟨⟩

namespace Directory

structure Inv (dir : Directory) (lo : Nat) : Prop where
  positive : 1 ≤ lo
  bound : lo ≤ dir.accepted.length + 1
  numbered : Numbered 1 dir.accepted
  holds : Holds lo dir.segs (dir.kept lo)
  main : ∀ file, dir.main = some file → file.Spans lo dir.accepted
  prev : ∀ file, dir.prev = some file → file.Spans lo dir.accepted
  uncreated : dir.main = none → dir.prev = none → dir.accepted = []
  process : ∀ p, dir.process = some p → p.Sound dir lo

theorem inv_absent : Inv absent 1 :=
  ⟨Nat.le_refl 1, Nat.le_refl 1, trivial, .closed (.nil 1), by rintro _ ⟨⟩, by rintro _ ⟨⟩,
    fun _ _ => rfl, by rintro _ ⟨⟩⟩

variable {dir : Directory} {lo : Nat} {p : Process}

theorem Inv.length_kept (hinv : dir.Inv lo) :
    lo + (dir.kept lo).length = dir.accepted.length + 1 := by
  have hpositive := hinv.positive
  have hbound := hinv.bound
  unfold kept
  rw [List.length_drop]
  omega

/-- Without a process only the files count. -/
theorem Inv.stops (hinv : dir.Inv lo) : Inv { dir with process := none } lo :=
  { hinv with process := by rintro _ ⟨⟩ }

theorem Inv.enters (hinv : dir.Inv lo) (hsound : p.Sound dir lo) :
    Inv { dir with process := some p } lo :=
  { hinv with
    process := by
      rintro _ ⟨⟩
      exact { hsound with } }

/-- The segments may change as long as they hold what was kept. -/
theorem Inv.segments (hinv : dir.Inv lo) {segs : List Segment}
    (hholds : Holds lo segs (dir.kept lo)) :
    Inv { dir with segs := segs, process := none } lo :=
  { hinv with holds := hholds, process := by rintro _ ⟨⟩ }

/-! Opens -/

theorem Inv.scans (hinv : dir.Inv lo) {c : Nat} (hlow : lo ≤ c + 1) :
    (scan (c + 1) dir.segs).delivered = dir.accepted.drop c ∧
      (scan (c + 1) dir.segs).gap = false := by
  obtain ⟨hdelivered, hgap⟩ := scan_of_holds hinv.holds hlow
  refine ⟨?_, hgap⟩
  have hpositive := hinv.positive
  rw [hdelivered, filter_numbered hinv.holds.numbered, kept, List.drop_drop]
  congr 1
  omega

theorem Inv.nextLsn_eq (hinv : dir.Inv lo) {c : Nat} (hlow : lo ≤ c + 1)
    (hhigh : c ≤ dir.accepted.length) :
    nextLsnFrom (c + 1) dir.segs = dir.accepted.length + 1 := by
  unfold nextLsnFrom
  rw [(hinv.scans hlow).1]
  rcases Nat.lt_or_ge c dir.accepted.length with hlt | hge
  · have hnonempty : dir.accepted.drop c ≠ [] := by
      rw [Ne, List.drop_eq_nil_iff]
      omega
    have hnumbered : Numbered (1 + c) (dir.accepted.drop c) := by
      have hall := hinv.numbered
      rw [← List.take_append_drop c dir.accepted] at hall
      have hdrop := (Numbered.append.mp hall).2
      rwa [List.length_take, Nat.min_eq_left hhigh] at hdrop
    have hafter := nextLsnAfter_of_numbered hnumbered hnonempty
    unfold nextLsnAfter at hafter
    rw [List.getLast?_eq_some_getLast hnonempty] at hafter ⊢
    rw [List.length_drop] at hafter
    simp only [Option.elim_some] at hafter ⊢
    omega
  · rw [List.drop_of_length_le hge]
    simp only [List.getLast?_nil]
    omega

/-! Steps -/

theorem enter_eq {segs : List Segment} (hp : dir.process = some p) :
    { dir with segs := segs } = { dir with segs := segs, process := some p } := by
  rw [← hp]

theorem Inv.creates (hinv : dir.Inv lo) (hmain : dir.main = none) (hprev : dir.prev = none) :
    Inv { dir with segs := [], main := some ⟨0, true⟩, process := some ⟨0, 0, .loaded⟩ } 1 := by
  have haccepted := hinv.uncreated hmain hprev
  have hempty : Inv { dir with segs := [], main := some ⟨0, true⟩, process := none } 1 := by
    refine ⟨Nat.le_refl 1, Nat.succ_le_succ (Nat.zero_le _), hinv.numbered, ?_, ?_, ?_,
      by rintro ⟨⟩, by rintro _ ⟨⟩⟩
    · change Holds 1 [] (dir.accepted.drop 0)
      rw [haccepted]
      exact .closed (.nil 1)
    · rintro _ ⟨⟩
      exact ⟨Nat.le_refl 1, Nat.zero_le _⟩
    · intro file hfile
      rw [show dir.prev = some file from hfile] at hprev
      cases hprev
  refine hempty.enters ((hempty.main _ rfl).sound ?_ (by rintro ⟨⟩))
  rintro _ ⟨⟩
  rfl

theorem Inv.loads (hinv : dir.Inv lo) {file : MetaFile} (hmain : dir.main = some file) :
    Inv { dir with process := some ⟨file.checkpointLsn, file.checkpointLsn, .loaded⟩ } lo := by
  refine hinv.enters ((hinv.main file hmain).sound ?_ ?_)
  · intro other hother
    exact Option.some.inj (hother.symm.trans hmain)
  · intro hnone
    rw [hmain] at hnone
    cases hnone

theorem Inv.fallsBack (hinv : dir.Inv lo) {file : MetaFile} (hprev : dir.prev = some file) :
    Inv { dir with
      main := none
      process := some ⟨file.checkpointLsn, file.checkpointLsn, .loaded⟩ } lo := by
  have hdropped : Inv { dir with main := none, process := none } lo :=
    { hinv with
      main := by rintro _ ⟨⟩
      process := by rintro _ ⟨⟩
      uncreated := fun _ hnone => by
        rw [show dir.prev = none from hnone] at hprev
        cases hprev }
  exact hdropped.enters ((hdropped.prev file hprev).sound (by rintro _ ⟨⟩) fun _ => hprev)

theorem Inv.recovers (hinv : dir.Inv lo) (hp : dir.process = some p) :
    Inv (dir.enter p (.recovering (nextLsnFrom (p.checkpointLsn + 1) dir.segs))) lo := by
  have hsound := hinv.process p hp
  have hlow : lo ≤ p.checkpointLsn + 1 := hsound.cut.trans (Nat.succ_le_succ hsound.order)
  refine hinv.enters { hsound with
    live := by rintro _ ⟨⟩
    next := ?_
    unlinked := by rintro _ ⟨⟩
    rotated := by rintro _ (⟨⟨⟩⟩ | ⟨⟨⟩⟩)
    installed := by rintro _ ⟨⟩ }
  rintro _ ⟨⟩
  exact hinv.nextLsn_eq hlow hsound.high

theorem Inv.removesStale (hinv : dir.Inv lo) {nextLsn firstLsn : Nat}
    (hp : dir.process = some p) (hphase : p.phase = .recovering nextLsn)
    (hstale : firstLsn ∈ staleSegments nextLsn dir.segs) :
    Inv { dir with segs := removeSegment firstLsn dir.segs } lo := by
  have hsound := hinv.process p hp
  have hholds : Holds lo (removeSegment firstLsn dir.segs) (dir.kept lo) := by
    apply hinv.holds.removeSegment
    rw [hinv.length_kept, ← hsound.next nextLsn hphase]
    exact mem_staleSegments hstale
  rw [enter_eq hp]
  refine (hinv.segments hholds).enters { hsound with live := fun log hlog => ?_ }
  rw [hphase] at hlog
  cases hlog

/-- The log is opened behind its last record. -/
theorem Inv.opensLog (hinv : dir.Inv lo) {nextLsn segmentBytes : Nat} {fault : Option Fault}
    {log : Log} {segs : List Segment} (hp : dir.process = some p)
    (hphase : p.phase = .recovering nextLsn)
    (hopen : openLog fault nextLsn segmentBytes dir.segs = (.ok, log, segs)) :
    Inv ({ dir with segs := segs }.enter { p with checkpointLsn := nextLsn - 1 }
      (.writing log)) lo := by
  have hsound := hinv.process p hp
  have hnext := hsound.next nextLsn hphase
  have hopened := live_openLog hinv.holds fault segmentBytes
  rw [hinv.length_kept, ← hnext, hopen] at hopened
  have hholds : Holds lo segs (dir.kept lo) := hopened.1
  refine (hinv.segments hholds).enters { hsound with
    live := ?_
    next := by rintro _ ⟨⟩
    order := ?_
    high := ?_
    unlinked := by rintro _ ⟨⟩
    rotated := by rintro _ (⟨⟨⟩⟩ | ⟨⟨⟩⟩)
    installed := by rintro _ ⟨⟩ }
  · rintro _ ⟨⟩
    exact hopened.2 rfl
  · have horder := hsound.order.trans hsound.high
    change p.mainCheckpointLsn ≤ nextLsn - 1
    omega
  · change nextLsn - 1 ≤ dir.accepted.length
    omega

theorem Inv.refusesLog (hinv : dir.Inv lo) {nextLsn segmentBytes : Nat} {fault : Option Fault}
    {status : Status} {log : Log} {segs : List Segment} (hp : dir.process = some p)
    (hphase : p.phase = .recovering nextLsn)
    (hopen : openLog fault nextLsn segmentBytes dir.segs = (status, log, segs)) :
    Inv { dir with segs := segs, process := none } lo := by
  have hholds := (live_openLog hinv.holds fault segmentBytes).1
  rw [hinv.length_kept, ← (hinv.process p hp).next nextLsn hphase, hopen] at hholds
  exact hinv.segments hholds

/-- An accepted record is one more that the log keeps. -/
theorem Inv.appends (hinv : dir.Inv lo) {log log' : Log} {rec : OpRecord}
    {fault : Option Fault} {lsn : Nat} {segs : List Segment} (hp : dir.process = some p)
    (hphase : p.phase = .writing log)
    (hfits : rec.bodyLength ≤ kMaxBodyBytes → OpRecord.Fits { rec with lsn := log.nextLsn })
    (happend : append fault rec log dir.segs = (.ok lsn, log', segs)) :
    Inv ({ dir with
      segs := segs
      accepted := dir.accepted ++ [{ rec with lsn := lsn }] }.enter p (.writing log')) lo := by
  have hsound := hinv.process p hp
  have hlive := hsound.live log (by rw [hphase]; rfl)
  have hresult := appended_append fault hlive hfits
  rw [happend] at hresult
  obtain ⟨hlsn, hlive'⟩ := hresult
  have hlength := hinv.length_kept
  have hkept : (dir.accepted ++ [{ rec with lsn := lsn }]).drop (lo - 1) =
      dir.kept lo ++ [{ rec with lsn := lsn }] := by
    have hbound := hinv.bound
    exact List.drop_append_of_le_length (by omega)
  have hnumbered : Numbered 1 (dir.accepted ++ [{ rec with lsn := lsn }]) := by
    have hlast := (Numbered.append.mp hlive'.holds.numbered).2
    rw [hlength, Nat.add_comm] at hlast
    exact Numbered.append.mpr ⟨hinv.numbered, hlast⟩
  have hlonger : dir.accepted.length ≤
      (dir.accepted ++ [{ rec with lsn := lsn }]).length := by
    rw [List.length_append]
    exact Nat.le_add_right _ _
  have hgrown : Inv { dir with
      segs := segs
      accepted := dir.accepted ++ [{ rec with lsn := lsn }]
      process := none } lo := by
    refine ⟨hinv.positive, hinv.bound.trans (Nat.succ_le_succ hlonger), hnumbered, ?_,
      fun file hfile => ⟨(hinv.main file hfile).low, (hinv.main file hfile).high.trans hlonger⟩,
      fun file hfile => ⟨(hinv.prev file hfile).low, (hinv.prev file hfile).high.trans hlonger⟩,
      fun hmain hprev => ?_, by rintro _ ⟨⟩⟩
    · change Holds lo segs (List.drop _ _)
      rw [hkept]
      exact hlive'.holds
    · obtain ⟨file, hfile, -⟩ := hsound.fallback hmain
      rw [show dir.prev = none from hprev] at hfile
      cases hfile
  refine hgrown.enters { hsound with
    live := ?_
    next := by rintro _ ⟨⟩
    high := hsound.high.trans hlonger
    unlinked := by rintro _ ⟨⟩
    rotated := by rintro _ (⟨⟨⟩⟩ | ⟨⟨⟩⟩)
    installed := by rintro _ ⟨⟩ }
  rintro _ ⟨⟩
  change Live log' lo segs (List.drop _ _)
  rw [hkept]
  exact hlive'

theorem Inv.refuses (hinv : dir.Inv lo) {log log' : Log} {rec : OpRecord}
    {fault : Option Fault} {status : Status} {segs : List Segment} (hp : dir.process = some p)
    (hphase : p.phase = .writing log)
    (hfits : rec.bodyLength ≤ kMaxBodyBytes → OpRecord.Fits { rec with lsn := log.nextLsn })
    (happend : append fault rec log dir.segs = (.error status, log', segs)) :
    Inv ({ dir with segs := segs }.enter p (.writing log')) lo := by
  have hsound := hinv.process p hp
  have hlive : Live log' lo segs (dir.kept lo) := by
    have hresult := appended_append fault (hsound.live log (by rw [hphase]; rfl)) hfits
    rw [happend] at hresult
    exact hresult
  refine (hinv.segments hlive.holds).enters { hsound with
    live := ?_
    next := by rintro _ ⟨⟩
    unlinked := by rintro _ ⟨⟩
    rotated := by rintro _ (⟨⟨⟩⟩ | ⟨⟨⟩⟩)
    installed := by rintro _ ⟨⟩ }
  rintro _ ⟨⟩
  exact hlive

theorem Inv.serializes (hinv : dir.Inv lo) {log : Log} (hp : dir.process = some p)
    (hphase : p.phase = .writing log) (written : Bool) :
    Inv (dir.enter { p with checkpointLsn := log.nextLsn - 1 }
      (if written then .serialized log else .writing log)) lo := by
  have hsound := hinv.process p hp
  have hlive := hsound.live log (by rw [hphase]; rfl)
  have hlast : log.nextLsn - 1 = dir.accepted.length := by
    rw [hlive.next, hinv.length_kept, Nat.add_sub_cancel]
  refine hinv.enters { hsound with
    live := ?_
    next := ?_
    order := ?_
    high := ?_
    unlinked := ?_
    rotated := ?_
    installed := ?_ }
  · cases written with
    | true | false =>
        rintro _ ⟨⟩
        exact hlive
  · cases written with
    | true | false => rintro _ ⟨⟩
  · change p.mainCheckpointLsn ≤ log.nextLsn - 1
    rw [hlast]
    exact hsound.order.trans hsound.high
  · exact hlast.le
  · cases written with
    | true | false => rintro _ ⟨⟩
  · cases written with
    | true | false => rintro _ (⟨⟨⟩⟩ | ⟨⟨⟩⟩)
  · cases written with
    | true | false => rintro _ ⟨⟩

theorem Inv.unlinks (hinv : dir.Inv lo) {log : Log} (hp : dir.process = some p)
    (hphase : p.phase = .serialized log) (hmain : dir.main ≠ none) :
    Inv ({ dir with prev := none }.enter p (.unlinked log)) lo := by
  have hsound := hinv.process p hp
  have hdropped : Inv { dir with prev := none, process := none } lo :=
    { hinv with
      prev := by rintro _ ⟨⟩
      uncreated := fun hnone => absurd hnone hmain
      process := by rintro _ ⟨⟩ }
  refine hdropped.enters { hsound with
    live := ?_
    next := by rintro _ ⟨⟩
    fallback := fun hnone => absurd hnone hmain
    unlinked := fun _ _ => hmain
    rotated := by rintro _ (⟨⟨⟩⟩ | ⟨⟨⟩⟩)
    installed := by rintro _ ⟨⟩ }
  rintro _ ⟨⟩
  exact hsound.live log (by rw [hphase]; rfl)

/-- The checkpoint that becomes `.prev` is not below the cut. -/
theorem Inv.links (hinv : dir.Inv lo) {log : Log} (hp : dir.process = some p)
    (hphase : p.phase = .unlinked log) :
    Inv ({ dir with prev := dir.main }.enter p (.rotated log)) lo := by
  have hsound := hinv.process p hp
  have hmain := hsound.unlinked log hphase
  have hlinked : Inv { dir with prev := dir.main, process := none } lo :=
    { hinv with
      prev := hinv.main
      uncreated := fun hnone => absurd hnone hmain
      process := by rintro _ ⟨⟩ }
  refine hlinked.enters { hsound with
    live := ?_
    next := by rintro _ ⟨⟩
    fallback := fun hnone => absurd hnone hmain
    unlinked := by rintro _ ⟨⟩
    rotated := fun _ _ => hsound.main
    installed := by rintro _ ⟨⟩ }
  rintro _ ⟨⟩
  exact hsound.live log (by rw [hphase]; rfl)

theorem Inv.keeps (hinv : dir.Inv lo) {log : Log} (hp : dir.process = some p)
    (hphase : p.phase = .serialized log) (hmain : dir.main = none) :
    Inv (dir.enter p (.rotated log)) lo := by
  have hsound := hinv.process p hp
  refine hinv.enters { hsound with
    live := ?_
    next := by rintro _ ⟨⟩
    unlinked := by rintro _ ⟨⟩
    rotated := fun _ _ file hfile => ?_
    installed := by rintro _ ⟨⟩ }
  · rintro _ ⟨⟩
    exact hsound.live log (by rw [hphase]; rfl)
  · obtain ⟨other, hother, hle⟩ := hsound.fallback hmain
    cases hfile.symm.trans hother
    exact hle

theorem Inv.renames (hinv : dir.Inv lo) {log : Log} (hp : dir.process = some p)
    (hphase : p.phase = .rotated log) :
    Inv ({ dir with main := some ⟨p.checkpointLsn, true⟩ }.enter p (.installed log)) lo := by
  have hsound := hinv.process p hp
  have hinstalled : Inv { dir with
      main := some ⟨p.checkpointLsn, true⟩, process := none } lo :=
    { hinv with
      main := by
        rintro _ ⟨⟩
        exact ⟨hsound.cut.trans (Nat.succ_le_succ hsound.order), hsound.high⟩
      uncreated := by rintro ⟨⟩
      process := by rintro _ ⟨⟩ }
  refine hinstalled.enters { hsound with
    live := ?_
    next := by rintro _ ⟨⟩
    main := ?_
    fallback := by rintro ⟨⟩
    unlinked := by rintro _ ⟨⟩
    rotated := fun _ _ => hsound.rotated log (.inl hphase)
    installed := fun _ _ => ⟨_, rfl, rfl⟩ }
  · rintro _ ⟨⟩
    exact hsound.live log (by rw [hphase]; rfl)
  · rintro _ ⟨⟩
    exact hsound.order

/-- A segment is removed only when both files have all its records. -/
theorem Inv.truncates (hinv : dir.Inv lo) {log : Log} {firstLsn : Nat} {more : List Nat}
    (hp : dir.process = some p) (hphase : p.phase = .installed log)
    (hobsolete : obsoleteSegments (p.mainCheckpointLsn + 1) dir.segs = firstLsn :: more) :
    ∃ lo', Inv { dir with segs := removeSegment firstLsn dir.segs } lo' := by
  have hsound := hinv.process p hp
  have hlive := hsound.live log (by rw [hphase]; rfl)
  obtain ⟨own, later, hkept, hcut, hlive', -⟩ := live_removeObsolete hlive hobsolete
  have hpositive := hinv.positive
  have hlength := hinv.length_kept
  have hlater : dir.kept (lo + own.length) = later := by
    have hsplit : lo + own.length - 1 = lo - 1 + own.length := by omega
    unfold kept at hkept ⊢
    rw [hsplit, ← List.drop_drop, hkept, List.drop_left]
  rw [← hlater] at hlive'
  have hshorter : own.length ≤ (dir.kept lo).length := by
    rw [hkept, List.length_append]
    exact Nat.le_add_right _ _
  have hremoved : Inv { dir with segs := removeSegment firstLsn dir.segs, process := none }
      (lo + own.length) := by
    refine ⟨by omega, ?_, hinv.numbered, hlive'.holds, fun file hfile => ?_,
      fun file hfile => ?_, hinv.uncreated, by rintro _ ⟨⟩⟩
    · change lo + own.length ≤ dir.accepted.length + 1
      omega
    · exact ⟨hcut.trans (Nat.succ_le_succ (hsound.main file hfile)),
        (hinv.main file hfile).high⟩
    · exact ⟨hcut.trans (Nat.succ_le_succ (hsound.rotated log (.inr hphase) file hfile)),
        (hinv.prev file hfile).high⟩
  rw [enter_eq hp]
  refine ⟨lo + own.length, hremoved.enters { hsound with
    live := fun other hother => ?_
    cut := hcut }⟩
  rw [hphase] at hother
  cases hother
  exact hlive'

/-- The next truncation cuts at the checkpoint that was just installed. -/
theorem Inv.finishes (hinv : dir.Inv lo) {log : Log} (hp : dir.process = some p)
    (hphase : p.phase = .installed log) :
    Inv (dir.enter { p with mainCheckpointLsn := p.checkpointLsn } (.writing log)) lo := by
  have hsound := hinv.process p hp
  obtain ⟨file, hmain, hlsn⟩ := hsound.installed log hphase
  refine hinv.enters { hsound with
    live := ?_
    next := by rintro _ ⟨⟩
    cut := hsound.cut.trans (Nat.succ_le_succ hsound.order)
    order := Nat.le_refl _
    main := fun other hother => ?_
    fallback := fun hnone => ?_
    unlinked := by rintro _ ⟨⟩
    rotated := by rintro _ (⟨⟨⟩⟩ | ⟨⟨⟩⟩)
    installed := by rintro _ ⟨⟩ }
  · rintro _ ⟨⟩
    exact hsound.live log (by rw [hphase]; rfl)
  · cases hmain.symm.trans hother
    exact hlsn.ge
  · rw [hmain] at hnone
    cases hnone

theorem Inv.damagesMain (hinv : dir.Inv lo) {file : MetaFile}
    (hmain : dir.main = some file) : Inv { dir with main := some file.damaged } lo := by
  refine { hinv with
    main := ?_
    uncreated := by rintro ⟨⟩
    process := fun p hp => ?_ }
  · rintro _ ⟨⟩
    exact ⟨(hinv.main file hmain).low, (hinv.main file hmain).high⟩
  · have hsound := hinv.process p hp
    refine { hsound with
      main := ?_
      fallback := by rintro ⟨⟩
      unlinked := by rintro _ _ ⟨⟩
      installed := fun log hlog => ?_ }
    · rintro _ ⟨⟩
      exact hsound.main file hmain
    · obtain ⟨other, hother, hlsn⟩ := hsound.installed log hlog
      cases hmain.symm.trans hother
      exact ⟨_, rfl, hlsn⟩

theorem Inv.damagesPrev (hinv : dir.Inv lo) {file other : MetaFile}
    (hmain : dir.main = some file) (hprev : dir.prev = some other) :
    Inv { dir with prev := some other.damaged } lo := by
  have hset : dir.main ≠ none := by
    rw [hmain]
    rintro ⟨⟩
  refine { hinv with
    prev := ?_
    uncreated := fun hnone => absurd hnone hset
    process := fun p hp => ?_ }
  · rintro _ ⟨⟩
    exact ⟨(hinv.prev other hprev).low, (hinv.prev other hprev).high⟩
  · have hsound := hinv.process p hp
    refine { hsound with
      fallback := fun hnone => absurd hnone hset
      rotated := fun log hlog => ?_ }
    rintro _ ⟨⟩
    exact hsound.rotated log hlog other hprev

/-- Every step keeps the invariant; only a truncation moves the first lsn. -/
theorem Inv.step (hinv : dir.Inv lo) {dir' : Directory} (hstep : Step dir dir') :
    ∃ lo', dir'.Inv lo' := by
  cases hstep with
  | creates _ hmain hprev => exact ⟨1, hinv.creates hmain hprev⟩
  | loads file _ hmain _ => exact ⟨lo, hinv.loads hmain⟩
  | fallsBack file _ _ hprev _ => exact ⟨lo, hinv.fallsBack hprev⟩
  | scans p hp _ => exact ⟨lo, hinv.recovers hp⟩
  | removesStale p nextLsn firstLsn hp hphase hstale =>
      exact ⟨lo, hinv.removesStale hp hphase hstale⟩
  | opensLog p nextLsn segmentBytes fault log segs hp hphase hopen =>
      exact ⟨lo, hinv.opensLog hp hphase hopen⟩
  | refusesLog p nextLsn segmentBytes fault status log segs hp hphase hopen =>
      exact ⟨lo, hinv.refusesLog hp hphase hopen⟩
  | appends p log log' rec fault lsn segs hp hphase hfits happend =>
      exact ⟨lo, hinv.appends hp hphase hfits happend⟩
  | refuses p log log' rec fault status segs hp hphase hfits happend =>
      exact ⟨lo, hinv.refuses hp hphase hfits happend⟩
  | serializes p log written hp hphase => exact ⟨lo, hinv.serializes hp hphase written⟩
  | unlinks p log hp hphase hmain => exact ⟨lo, hinv.unlinks hp hphase hmain⟩
  | links p log hp hphase => exact ⟨lo, hinv.links hp hphase⟩
  | keeps p log hp hphase hmain => exact ⟨lo, hinv.keeps hp hphase hmain⟩
  | renames p log hp hphase => exact ⟨lo, hinv.renames hp hphase⟩
  | truncates p log firstLsn more hp hphase hobsolete =>
      exact hinv.truncates hp hphase hobsolete
  | finishes p log hp hphase => exact ⟨lo, hinv.finishes hp hphase⟩
  | fails p log hp hlog =>
      have hsound := hinv.process p hp
      exact ⟨lo, hinv.enters (hsound.writing (hsound.live log hlog))⟩
  | stops => exact ⟨lo, hinv.stops⟩
  | damagesMain file hmain => exact ⟨lo, hinv.damagesMain hmain⟩
  | damagesBoth file other hmain hprev =>
      exact ⟨lo, (hinv.damagesMain hmain).damagesPrev rfl hprev⟩

theorem Reachable.inv (hreachable : dir.Reachable) : ∃ lo, dir.Inv lo := by
  induction hreachable with
  | refl => exact ⟨1, inv_absent⟩
  | tail _ hstep ih =>
      obtain ⟨lo, hinv⟩ := ih
      exact hinv.step hstep

theorem Inv.covers (hinv : dir.Inv lo) {file : MetaFile}
    (hspans : file.Spans lo dir.accepted) : dir.Covers file := by
  obtain ⟨hdelivered, hgap⟩ := hinv.scans hspans.low
  have hwanted : dir.accepted.filter (file.checkpointLsn + 1 ≤ ·.lsn) =
      dir.accepted.drop file.checkpointLsn := by
    rw [filter_numbered hinv.numbered, Nat.add_sub_cancel]
  have hnumbered : Numbered (file.checkpointLsn + 1)
      (dir.accepted.drop file.checkpointLsn) := by
    have hall := hinv.numbered
    rw [← List.take_append_drop file.checkpointLsn dir.accepted] at hall
    have hdrop := (Numbered.append.mp hall).2
    rwa [List.length_take, Nat.min_eq_left hspans.high, Nat.add_comm] at hdrop
  unfold Covers
  simp only [hwanted]
  exact ⟨hdelivered, hgap, hnumbered.map_lsn⟩

/-- At every instant the log has all that was accepted above each of the two checkpoints,
and a scan from there delivers it in order. -/
theorem Reachable.covers_both (hreachable : dir.Reachable) {file : MetaFile}
    (hfile : dir.main = some file ∨ dir.prev = some file) : dir.Covers file := by
  obtain ⟨lo, hinv⟩ := hreachable.inv
  rcases hfile with hmain | hprev
  · exact hinv.covers (hinv.main file hmain)
  · exact hinv.covers (hinv.prev file hprev)

/-- A store with one insert and one checkpoint, opened from `.prev` when the main file was
damaged. -/
def fallenBack : Directory where
  segs := afterInsert.2
  accepted := [{ insertSeven with lsn := 1 }]
  main := none
  prev := some ⟨0, true⟩
  process := some ⟨0, 0, .loaded⟩

theorem reachable_fallenBack : fallenBack.Reachable := by
  have hscanned : Reachable
      ⟨[], [], some ⟨0, true⟩, none, some ⟨0, 0, .recovering 1⟩⟩ :=
    .tail (.single (.creates rfl rfl rfl)) (.scans ⟨0, 0, .loaded⟩ rfl rfl)
  have hopened : Reachable
      ⟨firstSession.2, [], some ⟨0, true⟩, none, some ⟨0, 0, .writing firstSession.1⟩⟩ :=
    hscanned.tail (.opensLog ⟨0, 0, .recovering 1⟩ 1 0 none firstSession.1 firstSession.2
      rfl rfl rfl)
  have happended : Reachable
      ⟨afterInsert.2, fallenBack.accepted, some ⟨0, true⟩, none,
        some ⟨0, 0, .writing afterInsert.1⟩⟩ :=
    hopened.tail (.appends ⟨0, 0, .writing firstSession.1⟩ firstSession.1 afterInsert.1
      insertSeven none 1 afterInsert.2 rfl rfl (fun _ => insertSeven_fits (by decide)) rfl)
  have hserialized : Reachable
      ⟨afterInsert.2, fallenBack.accepted, some ⟨0, true⟩, none,
        some ⟨1, 0, .serialized afterInsert.1⟩⟩ :=
    happended.tail (.serializes ⟨0, 0, .writing afterInsert.1⟩ afterInsert.1 true rfl rfl)
  have hunlinked : Reachable
      ⟨afterInsert.2, fallenBack.accepted, some ⟨0, true⟩, none,
        some ⟨1, 0, .unlinked afterInsert.1⟩⟩ :=
    hserialized.tail (.unlinks ⟨1, 0, .serialized afterInsert.1⟩ afterInsert.1 rfl rfl
      (by rintro ⟨⟩))
  have hrotated : Reachable
      ⟨afterInsert.2, fallenBack.accepted, some ⟨0, true⟩, some ⟨0, true⟩,
        some ⟨1, 0, .rotated afterInsert.1⟩⟩ :=
    hunlinked.tail (.links ⟨1, 0, .unlinked afterInsert.1⟩ afterInsert.1 rfl rfl)
  have hinstalled : Reachable
      ⟨afterInsert.2, fallenBack.accepted, some ⟨1, true⟩, some ⟨0, true⟩,
        some ⟨1, 0, .installed afterInsert.1⟩⟩ :=
    hrotated.tail (.renames ⟨1, 0, .rotated afterInsert.1⟩ afterInsert.1 rfl rfl)
  refine ((hinstalled.tail .stops).tail (.damagesMain ⟨1, true⟩ rfl)).tail
    (.fallsBack ⟨0, true⟩ rfl ?_ rfl rfl)
  rintro _ ⟨⟩
  rfl

theorem fallenBack_covers : fallenBack.Covers ⟨0, true⟩ :=
  reachable_fallenBack.covers_both (.inr rfl)

end Directory

end AsterVec.OpLog

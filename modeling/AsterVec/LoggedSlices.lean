import AsterVec.SliceReplay

/-!
The calls of one id with its part of the log and of the count of live ids.  Whenever such a
call is killed, the checkpoint, the log and the rows have the document of the id: the one
before the call, or the one the call makes of it once it counts.
-/

namespace AsterVec.Dense

open AsterVec.IdTypes
open AsterVec.OpLog (OpType)
open AsterVec.Programs
open Prog

variable {V Row α : Type}

/-- A call that works on one id, under its lock. -/
inductive IdCall (V Row : Type) where
  | write (call : WriteCall V Row)
  | payload (call : PayloadCall Row)

namespace IdCall

def r : IdCall V Row → Nat
  | write call => call.r
  | payload call => call.r

def onDoc : IdCall V Row → Doc V Row → Doc V Row
  | write call => call.onDoc
  | payload call => call.onDoc

def program : IdCall V Row → LoggedProg V Row Bool
  | .write (.upsert kind w) => LoggedProg.writeDense 2 kind w
  | .write (.delete r) => LoggedProg.deleteDense r
  | .payload call => LoggedProg.ofProg call.program

/-- A write counts once it is logged, a payload call once its row is written. -/
def commits : IdCall V Row → LoggedCall V Row → Bool
  | write _, .append _ => true
  | payload _, .store (.putRow _ _) => true
  | _, _ => false

end IdCall

/-- What an id with the document adds to the count of live ids. -/
def countOf (doc : Doc V Row) : Int := if doc.isSome then 1 else 0

theorem countOf_cases (doc : Doc V Row) : countOf doc = 0 ∨ countOf doc = 1 := by
  cases doc with
  | none => exact .inl rfl
  | some => exact .inr rfl

theorem countOf_nonneg (doc : Doc V Row) : 0 ≤ countOf doc := by
  rcases countOf_cases doc with hcount | hcount
  · exact hcount.ge
  · exact hcount ▸ Int.one_nonneg

/-- What the store has for an id: `doc` is its document once the calls that count so far are
made, `committed` tells whether the call under way is one of them, and `tally` is what the
id added to the count of live ids so far. -/
structure Entry (V Row : Type) where
  slice : Slice V Row
  records : List (LogRecord V Row)
  doc : Doc V Row
  committed : Bool
  tally : Int

namespace Entry

/-- A call counts once. -/
def commit (e : Entry V Row) (call : IdCall V Row) (c : LoggedCall V Row) : Entry V Row :=
  if call.commits c = true ∧ e.committed = false then
    { e with doc := call.onDoc e.doc, committed := true }
  else e

def Allowed (call : IdCall V Row) : LoggedCall V Row → Entry V Row → Prop
  | .store c, e => Slice.Allowed call.r c e.slice
  | .append record, e =>
      record.realId = call.r ∧ (record.Inserts → e.slice.owned record.internalId = true)
  | .observe _, _ => False
  | .count _, _ => True

def Step (call : IdCall V Row) :
    (c : LoggedCall V Row) → Entry V Row → LoggedReply c → Entry V Row → Prop
  | .store c, e, reply, e' =>
      ∃ s, Slice.Step call.r c e.slice reply s ∧
        e' = { e with slice := s }.commit call (.store c)
  | .append record, e, _, e' =>
      e' = { e with records := e.records ++ [record] }.commit call (.append record)
  | .observe _, e, _, e' => e' = e
  | .count change, e, _, e' => e' = { e with tally := e.tally + change }

def handler (call : IdCall V Row) : Handler (LoggedCall V Row) LoggedReply (Entry V Row) :=
  ⟨Allowed call, Step call⟩

end Entry

/-- The call does nothing to the rows and takes no update id. -/
def IsPlain : Call V Row → Prop
  | .putRow _ _ | .putRows _ | .deleteRow _ | .allocateUpdateId => False
  | _ => True

theorem Slice.Step.rows {r : Nat} {c : Call V Row} {s s' : Slice V Row} {reply : Reply c}
    (hplain : IsPlain c) (hstep : Slice.Step r c s reply s') : s'.rows = s.rows := by
  cases c with
  | putRow | putRows | deleteRow | allocateUpdateId => exact hplain.elim
  | resolveInternal | isTombstoned | vectorExists | getRow =>
      obtain ⟨-, rfl⟩ := hstep
      rfl
  | recordUpdateMapping | forgetUpdateMapping | tombstone | storeVector =>
      cases hstep
      rfl
  | _ =>
      cases hstep
      rfl

theorem plain_insertNode (nodeId : Nat) (vector : V) (plan : Plan) :
    (insertNode nodeId vector plan : Prog V Row Unit).All IsPlain := by
  refine (all_insertNode nodeId vector plan).mono fun c hplaces => ?_
  cases c with
  | putRow | putRows | deleteRow | allocateUpdateId => exact hplaces.elim
  | _ => trivial

theorem plain_isAlive (r : Nat) : (isAlive r : Prog V Row Bool).All IsPlain := by
  refine ⟨trivial, fun _ => ⟨trivial, fun dead => ?_⟩⟩
  cases (dead : Bool) with
  | true => exact trivial
  | false => exact ⟨trivial, fun _ => trivial⟩

section Versions

variable {r n : Nat} {s : Slice V Row}

/-- An id whose direct version is dead gets a new one. -/
theorem safe_reinsertNode (hinv : s.Inv r) (hmap : s.mapping = none)
    (htomb : s.tombstoned r = true) (howned : s.owned n = true) (hne : n ≠ r)
    (hnew : s.Fresh n) (vector : V) (plan : Plan) :
    SafeWrite r (recordUpdateMapping r n >>= fun _ => insertNode n vector plan)
      (fun _ s' => s' = (s.record r n).store n vector) s := by
  apply safe_recordUpdateMapping
  · refine ⟨rfl, howned, hne, hnew.live, ?_, fun h => absurd (htomb.symm.trans h) (by simp)⟩
    rw [Slice.current_of_unmapped hmap]
    exact hinv.located _ htomb
  · have hallowed : Slice.Allowed r (.storeVector n vector) (s.record r n) :=
      ⟨howned, hnew.vector, hnew.live⟩
    exact safe_insertNode hallowed plan

/-- A new version replaces the current one. -/
theorem safe_replaceNode (hinv : s.Inv r) (halive : s.Alive r) (howned : s.owned n = true)
    (hne : n ≠ r) (hnew : s.Fresh n) (vector : V) (plan : Plan) :
    SafeWrite r (insertNode n vector plan >>= fun _ => recordUpdateMapping r n >>= fun _ =>
      tombstone (s.current r))
      (fun _ s' => s' = ((s.store n vector).record r n).tombstone (s.current r)) s := by
  have hnc := hnew.ne_of_vector halive.2
  have hstored : (s.store n vector).vectors n = some vector := Function.update_self _ _ _
  have hother : ((s.store n vector).vectors (s.current r)).isSome = true := by
    change (Function.update s.vectors n _ (s.current r)).isSome = true
    rw [Function.update_of_ne hnc]
    exact halive.2
  apply safe_insertNode_bind ⟨howned, hnew.vector, hnew.live⟩
  apply safe_recordUpdateMapping
  · exact ⟨rfl, howned, hne, hnew.live, hother, fun _ => by rw [hstored]; rfl⟩
  refine ⟨trivial, ⟨hinv.owned_current, hother,
    fun h => absurd (Option.some.inj h).symm hnc⟩, ?_⟩
  rintro _ _ rfl
  rfl

theorem plain_replaceNode (vector : V) (plan : Plan) (i : Nat) :
    (insertNode n vector plan >>= fun _ => recordUpdateMapping r n >>= fun _ =>
      tombstone i : Prog V Row Unit).All IsPlain :=
  (plain_insertNode ..).bind fun _ => ⟨trivial, fun _ => ⟨trivial, fun _ => trivial⟩⟩

end Versions

/-- What has to be at any moment the process can be killed. -/
structure Entry.Stops (r : Nat) (saved : Slice V Row) (e : Entry V Row) : Prop where
  legal : Legal r saved e.records
  recoverable : Recoverable r saved e.records e.slice.rows e.doc
  tally : e.tally = 0 ∨ e.tally = 1

abbrev SafeEntry (call : IdCall V Row) (saved : Slice V Row) (p : LoggedProg V Row α)
    (Post : α → Entry V Row → Prop) (e : Entry V Row) : Prop :=
  Safe (Entry.handler call) (Entry.Stops call.r saved) p Post e

section Rules

variable {call : IdCall V Row} {saved : Slice V Row} {e : Entry V Row}

theorem Entry.commit_eq (e : Entry V Row) {c : LoggedCall V Row}
    (hcommits : call.commits c = false) : e.commit call c = e :=
  if_neg fun h => absurd (hcommits.symm.trans h.1) (by simp)

theorem IsPlain.commits {c : Call V Row} (hplain : IsPlain c) (call : IdCall V Row) :
    call.commits (.store c) = false := by
  cases call with
  | write => cases c <;> rfl
  | payload => cases c <;> first | exact hplain.elim | rfl

/-- A part of a call that leaves the rows. -/
theorem safe_ofProg (call : IdCall V Row) {e : Entry V Row} {p : Prog V Row α}
    {Post : α → Slice V Row → Prop} (hplain : p.All IsPlain)
    (hsafe : SafeWrite call.r p Post e.slice) (hinv : e.slice.Inv call.r)
    (hstops : e.Stops call.r saved) :
    SafeEntry call saved (LoggedProg.ofProg p) (fun value e' => Post value e'.slice ∧
      e'.slice.Inv call.r ∧ e'.slice.rows = e.slice.rows ∧
      e' = { e with slice := e'.slice }) e := by
  induction p generalizing e with
  | done value => exact ⟨hsafe, hinv, rfl, rfl⟩
  | call c next ih =>
      obtain ⟨hone, hplain⟩ := hplain
      obtain ⟨-, hallowed, hnext⟩ := hsafe
      refine ⟨hstops, hallowed, ?_⟩
      rintro reply e' ⟨s, hstep, rfl⟩
      rw [Entry.commit_eq _ (hone.commits call)]
      have hrows := hstep.rows hone
      refine (ih reply (hplain reply) (hnext reply s hstep) (hinv.step hallowed hstep) ?_).mono ?_
      · refine ⟨hstops.legal, ?_, hstops.tally⟩
        change Recoverable _ _ e.records s.rows e.doc
        rw [hrows]
        exact hstops.recoverable
      · rintro value e'' ⟨hpost, hinv, hsame, heq⟩
        exact ⟨hpost, hinv, hsame.trans hrows, heq⟩

/-- A record is logged, and the call counts. -/
theorem safe_logOp (call : IdCall V Row) {record : LogRecord V Row}
    {follow : Unit → LoggedProg V Row α}
    {Post : α → Entry V Row → Prop} (hcommits : call.commits (.append record) = true)
    (hopen : e.committed = false) (hstops : e.Stops call.r saved)
    (hrecord : record.realId = call.r)
    (howned : record.Inserts → e.slice.owned record.internalId = true)
    (hnext : SafeEntry call saved (follow ()) Post
      ⟨e.slice, e.records ++ [record], call.onDoc e.doc, true, e.tally⟩) :
    SafeEntry call saved (LoggedProg.logOp record >>= follow) Post e := by
  refine ⟨hstops, ⟨hrecord, howned⟩, ?_⟩
  rintro _ e' rfl
  unfold Entry.commit
  rw [if_pos ⟨hcommits, hopen⟩]
  exact hnext

theorem safe_addLiveCount (call : IdCall V Row) {change : Int}
    {follow : Unit → LoggedProg V Row α} {Post : α → Entry V Row → Prop}
    (hstops : e.Stops call.r saved)
    (hnext : SafeEntry call saved (follow ()) Post { e with tally := e.tally + change }) :
    SafeEntry call saved (LoggedProg.addLiveCount change >>= follow) Post e := by
  refine ⟨hstops, trivial, ?_⟩
  rintro _ e' rfl
  exact hnext

end Rules

/-! Between two calls -/

/-- No call works on the id: its slice is where the records lead. -/
structure Ready (r : Nat) (saved : Slice V Row) (s : Slice V Row)
    (records : List (LogRecord V Row)) (doc : Doc V Row) : Prop where
  inv : s.Inv r
  idle : s.Idle r
  tidy : saved.Tidy r
  versions : s.bare = replayed saved records
  legal : Legal r saved records
  committed : Committed r saved records s.rows doc

section Calls

variable {r : Nat} {saved s s' : Slice V Row} {records : List (LogRecord V Row)}
  {record : LogRecord V Row} {doc doc' : Doc V Row}

/-- The call whose record it is has done its part. -/
theorem Ready.snoc (hready : Ready r saved s records doc) (hfits : record.Fits r s.bare)
    (hinv : s'.Inv r) (hidle : s'.Idle r) (hversions : s'.bare = record.onSlice s.bare)
    (hcommitted : Committed r saved (records ++ [record]) s'.rows doc') :
    Ready r saved s' (records ++ [record]) doc' := by
  refine ⟨hinv, hidle, hready.tidy, ?_, legal_append.mpr ⟨hready.legal, ?_, trivial⟩,
    hcommitted⟩
  · rw [replayed_snoc, ← hready.versions]
    exact hversions
  · rw [← hready.versions]
    exact hfits

theorem Ready.stops (hready : Ready r saved s records doc) (committed : Bool) :
    Entry.Stops r saved ⟨s, records, doc, committed, countOf doc⟩ :=
  ⟨hready.legal, .inl hready.committed, countOf_cases doc⟩

/-- What is logged can be replayed. -/
theorem Ready.log (hready : Ready r saved s records doc) (t : Slice V Row)
    (hfits : record.Fits r s.bare) (hrows : t.rows = s.rows) :
    Entry.Stops r saved ⟨t, records ++ [record], record.onDoc doc, true, countOf doc⟩ := by
  refine ⟨legal_append.mpr ⟨hready.legal, hready.versions ▸ hfits, trivial⟩, .inr ?_,
    countOf_cases doc⟩
  exact ⟨records, record, doc, rfl, hrows ▸ hready.committed, hready.versions ▸ hfits, rfl⟩

/-- The rows once an insert or an update put its own. -/
theorem Ready.place (hready : Ready r saved s records doc) (hfits : record.Fits r s.bare)
    (hinserts : record.Inserts) :
    Committed r saved (records ++ [record])
      (Function.update s.rows record.internalId (record.payload.or (doc.bind Prod.snd)))
      (record.onDoc doc) :=
  hready.committed.place hready.legal (hready.versions ▸ hfits) hinserts

theorem Ready.doc_eq (hready : Ready r saved s records doc) : s.doc r = doc := by
  obtain ⟨had, row, hrowed, rfl⟩ := hready.committed
  rw [← hready.versions]
  by_cases halive : s.Alive r
  · have hcurrent := hrowed.current (hready.versions ▸ halive)
    rw [← hready.versions] at hcurrent
    rw [← s.docWith_rows r, show s.rows (s.current r) = row from hcurrent]
    rfl
  · rw [Slice.doc_of_dead halive]
    exact (Slice.docWith_of_dead (s := s.bare) halive row).symm

/-- A checkpoint of the id. -/
theorem Ready.anew (hready : Ready r saved s records doc) : Ready r s.bare s [] doc := by
  refine ⟨hready.inv, hready.idle, hready.idle.tidy hready.inv, rfl, trivial, ?_⟩
  rw [← hready.doc_eq]
  exact committed_nil hready.idle

theorem Ready.doc_of_alive (hready : Ready r saved s records doc) (halive : s.Alive r) :
    ∃ vector, doc = some (vector, s.rows (s.current r)) := by
  obtain ⟨vector, hvector⟩ := Option.isSome_iff_exists.mp halive.2
  exact ⟨vector, hready.doc_eq.symm.trans (halive.doc vector hvector)⟩

theorem Write.onDoc_eq (write : Write V Row) (op : OpType) (internalId aux : Nat)
    (hop : op = .kInsert ∨ op = .kUpdate) (doc : Doc V Row) :
    (⟨op, write.r, internalId, aux, some write.vector, write.metadata⟩ :
      LogRecord V Row).onDoc doc = write.onDoc doc := by
  rcases hop with rfl | rfl
  · cases doc with
    | none => exact congrArg some (Prod.ext rfl (Option.or_none ..))
    | some => rfl
  · cases doc with
    | none => exact congrArg some (Prod.ext rfl (Option.or_none ..))
    | some => rfl

theorem Slice.countOf_of_alive (halive : s.Alive r) : countOf (s.doc r) = 1 := by
  obtain ⟨vector, hvector⟩ := Option.isSome_iff_exists.mp halive.2
  rw [halive.doc vector hvector]
  rfl

theorem Slice.countOf_of_dead (hdead : ¬s.Alive r) : countOf (s.doc r) = 0 := by
  rw [Slice.doc_of_dead hdead]
  rfl

theorem Write.countOf_onDoc (write : Write V Row) (doc : Doc V Row) :
    countOf (write.onDoc doc) = 1 := by
  cases doc <;> rfl

theorem Ready.countOf_of_alive (hready : Ready r saved s records doc) (halive : s.Alive r) :
    countOf doc = 1 :=
  hready.doc_eq ▸ Slice.countOf_of_alive halive

theorem Ready.countOf_of_dead (hready : Ready r saved s records doc) (hdead : ¬s.Alive r) :
    countOf doc = 0 :=
  hready.doc_eq ▸ Slice.countOf_of_dead hdead

/-- A write puts its row; it counts already. -/
theorem safe_putMetadata_logged {call : WriteCall V Row} {e : Entry V Row} {i : Nat}
    (howned : e.slice.owned i = true) (metadata : Option Row)
    {Post : Unit → Entry V Row → Prop} (hstops : e.Stops call.r saved)
    (hpost : Post () { e with slice := e.slice.putMetadata i metadata }) :
    SafeEntry (.write call) saved (LoggedProg.ofProg (putMetadata i metadata)) Post e := by
  cases metadata with
  | none => exact hpost
  | some row =>
      refine ⟨hstops, howned, ?_⟩
      rintro _ e' ⟨t, rfl, rfl⟩
      exact hpost

/-- What is left of an insert once it is logged. -/
theorem safe_insertTail (call : WriteCall V Row) {e : Entry V Row} {t : Slice V Row} {i : Nat}
    {p : Prog V Row Unit} {metadata : Option Row} {Post : Unit → Entry V Row → Prop}
    (htally : e.tally = 0) (hplain : p.All IsPlain)
    (hsafe : SafeWrite call.r p (fun _ s => s = t) e.slice)
    (hinv : e.slice.Inv call.r) (hstops : e.Stops call.r saved) (howned : t.owned i = true)
    (hpost : t.Inv call.r → t.rows = e.slice.rows →
      Post () { e with slice := t.putMetadata i metadata, tally := 1 }) :
    SafeEntry (.write call) saved
      (LoggedProg.ofProg p >>= fun _ => LoggedProg.addLiveCount 1 >>= fun _ =>
        LoggedProg.ofProg (putMetadata i metadata)) Post e := by
  obtain ⟨s, records, doc, committed, tally⟩ := e
  obtain rfl : tally = 0 := htally
  apply Safe.bind
  refine (safe_ofProg (.write call) hplain hsafe hinv hstops).mono ?_
  rintro _ ⟨u, later, known, counted, tally⟩ ⟨rfl, hinv', hrows, heq⟩
  cases heq
  have hrecoverable : Recoverable call.r saved records u.rows doc := by
    rw [show u.rows = s.rows from hrows]
    exact hstops.recoverable
  refine safe_addLiveCount (.write call) ⟨hstops.legal, hrecoverable, .inl rfl⟩ ?_
  exact safe_putMetadata_logged (e := ⟨u, records, doc, committed, 1⟩) howned metadata
    ⟨hstops.legal, hrecoverable, .inr rfl⟩ (hpost hinv' hrows)

/-- A call leaves the id ready for the next one, and counts unless it changes nothing. -/
structure Ends (call : IdCall V Row) (saved : Slice V Row) (e : Entry V Row) : Prop where
  ready : Ready call.r saved e.slice e.records e.doc
  unchanged : e.committed = false → call.onDoc e.doc = e.doc
  tally : e.tally = countOf e.doc

theorem Slice.putMetadata_rows_eq (s : Slice V Row) {i : Nat} (metadata : Option Row)
    (hrow : s.rows i = none) :
    (s.putMetadata i metadata).rows = Function.update s.rows i metadata := by
  cases metadata with
  | none => exact (Function.update_eq_self_iff.mpr hrow.symm).symm
  | some row => rfl

/-- Putting a row keeps what holds at every moment. -/
theorem Slice.Inv.putMetadata (hinv : s.Inv r) {i : Nat} (howned : s.owned i = true)
    (metadata : Option Row) : (s.putMetadata i metadata).Inv r := by
  rcases Slice.putMetadata_cases metadata with hsame | ⟨row, hrow⟩
  · rw [hsame]
    exact hinv
  · rw [hrow]
    exact hinv.setRow howned row

theorem Slice.bare_putMetadata (s : Slice V Row) (i : Nat) (metadata : Option Row) :
    (s.putMetadata i metadata).bare = s.bare := by
  cases metadata <;> rfl

/-- An id gets its first version, or the one after its delete. -/
theorem Ready.inserted {kind : Kind} {write : Write V Row} {t : Slice V Row} {i : Nat}
    (hready : Ready write.r saved s records doc) (hdead : ¬s.Alive write.r)
    (hfits : LogRecord.Fits write.r s.bare
      ⟨.kInsert, write.r, i, 0, some write.vector, write.metadata⟩)
    (hwrites : s.Writes write (t.putMetadata i write.metadata)) (hinv : t.Inv write.r)
    (howned : t.owned i = true) (hrows : t.rows = s.rows) (hrow : s.rows i = none)
    (hversions : t.bare = (⟨.kInsert, write.r, i, 0, some write.vector, write.metadata⟩ :
      LogRecord V Row).onSlice s.bare) :
    Ends (.write (.upsert kind write)) saved ⟨t.putMetadata i write.metadata,
      records ++ [⟨.kInsert, write.r, i, 0, some write.vector, write.metadata⟩],
      write.onDoc doc, true, 1⟩ := by
  refine ⟨hready.snoc hfits (hinv.putMetadata howned _) (hwrites.idle hready.inv hready.idle)
    ((t.bare_putMetadata i _).trans hversions) ?_, by rintro ⟨⟩,
    (write.countOf_onDoc doc).symm⟩
  have hplaced := hready.place hfits (.inl rfl)
  rw [write.onDoc_eq .kInsert i 0 (.inl rfl)] at hplaced
  rw [t.putMetadata_rows_eq _ (hrows ▸ hrow), hrows]
  have hnone : doc.bind Prod.snd = none := by
    rw [← hready.doc_eq, Slice.doc_of_dead hdead]
    rfl
  rw [hnone, Option.or_none] at hplaced
  exact hplaced

theorem safe_insertDead_logged {kind : Kind} {write : Write V Row}
    (hready : Ready write.r saved s records doc) (hr : write.r < 2 ^ 63)
    (hdead : ¬s.Alive write.r) :
    SafeEntry (.write (.upsert kind write)) saved (LoggedProg.insertDead write)
      (fun _ e => Ends (.write (.upsert kind write)) saved e)
      ⟨s, records, doc, false, countOf doc⟩ := by
  have hinv := hready.inv
  obtain ⟨hmap, hrows⟩ := hready.idle.of_dead hdead
  have hcurrent : s.current write.r = write.r := Slice.current_of_unmapped hmap
  have hstops : Entry.Stops write.r saved ⟨s, records, doc, false, countOf doc⟩ :=
    hready.stops false
  unfold LoggedProg.insertDead
  refine ⟨hstops, hinv.owned_self, ?_⟩
  rintro _ e ⟨t, ⟨rfl, rfl⟩, rfl⟩
  rw [Entry.commit_eq _ rfl]
  cases htomb : t.tombstoned write.r with
  | true =>
      -- The direct version is dead: the vector gets an update id.
      refine ⟨hstops, trivial, ?_⟩
      rintro n e ⟨u, ⟨hnew, hupdate, rfl⟩, rfl⟩
      rw [Entry.commit_eq _ rfl]
      obtain ⟨hlive, hnone, -, hrow⟩ := hinv.bare n hnew
      have hdirect : isDirectId n = false := (isDirectId_eq_false_iff n).mpr hupdate
      have howned : (t.allocate n).owned n = true := Function.update_self _ _ _
      have hfits : LogRecord.Fits write.r t.bare
          ⟨.kInsert, write.r, n, 0, some write.vector, write.metadata⟩ :=
        .reinsert n write.vector write.metadata hmap htomb ⟨hupdate, hnone, hlive⟩
      have hlog := hready.log (t.allocate n) hfits rfl
      rw [write.onDoc_eq .kInsert n 0 (.inl rfl)] at hlog
      refine safe_logOp _ rfl rfl ⟨hstops.legal, hstops.recoverable, hstops.tally⟩ rfl
        (fun _ => howned) ?_
      have hinv' : (t.allocate n).Inv write.r := hinv.allocate ⟨hnew, hupdate, rfl⟩
      refine safe_insertTail (.upsert kind write)
        (p := recordUpdateMapping write.r n >>= fun _ => insertNode n write.vector write.plan)
        (i := n) (hready.countOf_of_dead hdead)
        ⟨trivial, fun _ => plain_insertNode n write.vector write.plan⟩
        (safe_reinsertNode hinv' hmap htomb howned (hinv.ne_of_new hnew)
          ⟨hupdate, hnone, hlive⟩ write.vector write.plan) hinv' hlog howned ?_
      · intro hinv' _
        refine hready.inserted hdead hfits (.reinsert n hdead htomb hnew) hinv' howned rfl
          (hrows n) ?_
        rw [LogRecord.onSlice_reinsert hupdate]
        rfl
  | false =>
      have hnone : t.vectors write.r = none := by
        cases hvec : t.vectors write.r with
        | none => rfl
        | some vector =>
            refine absurd ?_ hdead
            unfold Slice.Alive
            rw [hcurrent, hvec]
            exact ⟨htomb, rfl⟩
      have hfits : LogRecord.Fits write.r t.bare
          ⟨.kInsert, write.r, write.r, 0, some write.vector, write.metadata⟩ :=
        .insert write.vector write.metadata hr hmap htomb hnone
      have hlog := hready.log t hfits rfl
      rw [write.onDoc_eq .kInsert write.r 0 (.inl rfl)] at hlog
      refine safe_logOp _ rfl rfl hstops rfl (fun _ => hinv.owned_self) ?_
      refine safe_insertTail (.upsert kind write) (i := write.r)
        (p := insertNode write.r write.vector write.plan) (hready.countOf_of_dead hdead)
        (plain_insertNode ..)
        (safe_insertNode ⟨hinv.owned_self, hnone, htomb⟩ write.plan) hinv hlog hinv.owned_self ?_
      intro hinv' _
      refine hready.inserted hdead hfits (.insert hdead htomb hnone) hinv' hinv.owned_self rfl
        (hrows _) ?_
      rw [LogRecord.onSlice_insert hr]
      rfl

theorem safe_migrateMetadata_logged {call : WriteCall V Row} {e : Entry V Row}
    {oldInternal newInternal : Nat} (hold : e.slice.owned oldInternal = true)
    (hnew : e.slice.owned newInternal = true) (metadata : Option Row)
    {Post : Unit → Entry V Row → Prop} (hstops : e.Stops call.r saved)
    (hpost : Post () { e with
      slice := e.slice.putMetadata newInternal (metadata.or (e.slice.rows oldInternal)) }) :
    SafeEntry (.write call) saved
      (LoggedProg.ofProg (migrateMetadata oldInternal newInternal metadata)) Post e := by
  cases metadata with
  | some row => exact safe_putMetadata_logged hnew (some row) hstops hpost
  | none =>
      refine ⟨hstops, hold, ?_⟩
      rintro _ e' ⟨t, ⟨rfl, rfl⟩, rfl⟩
      rw [Entry.commit_eq _ rfl]
      exact safe_putMetadata_logged hnew _ hstops hpost

/-- The row of the old version moves to the new one, unless the write has a row of its own. -/
theorem safe_moveRow_logged (call : WriteCall V Row) {u : Slice V Row} {i n : Nat}
    {metadata : Option Row} {Post : Unit → Entry V Row → Prop} (hold : u.owned i = true)
    (hnew : u.owned n = true) (hrow : u.rows n = none)
    {tally : Int} (hlog : Entry.Stops call.r saved ⟨u, records, doc, true, tally⟩)
    (hplaced : Committed call.r saved records
      (Function.update u.rows n (metadata.or (u.rows i))) doc)
    (hdead : (replayed saved records).tombstoned i = true)
    (hpost : Committed call.r saved records
      ((u.putMetadata n (metadata.or (u.rows i))).setRow i none).rows doc →
      Post () ⟨(u.putMetadata n (metadata.or (u.rows i))).setRow i none, records, doc, true,
        tally⟩) :
    SafeEntry (.write call) saved
      (LoggedProg.ofProg (migrateMetadata i n metadata) >>= fun _ =>
        LoggedProg.ofProg (deleteRow i : Prog V Row Unit)) Post
      ⟨u, records, doc, true, tally⟩ := by
  have hput := Slice.putMetadata_rows_eq u (metadata.or (u.rows i)) hrow
  apply Safe.bind
  refine safe_migrateMetadata_logged hold hnew metadata hlog ⟨?_, ?_, ?_⟩
  · refine ⟨hlog.legal, ?_, hlog.tally⟩
    change Recoverable _ _ _ (u.putMetadata n _).rows _
    rw [hput]
    exact .inl hplaced
  · change (u.putMetadata n _).owned i = true
    rw [Slice.putMetadata_owned]
    exact hold
  · rintro _ _ ⟨_, rfl, rfl⟩
    apply hpost
    change Committed _ _ _ (Function.update (u.putMetadata n _).rows i none) _
    rw [hput]
    exact hplaced.drop hdead

theorem safe_updateAlive_logged {kind : Kind} {write : Write V Row}
    (hready : Ready write.r saved s records doc) (halive : s.Alive write.r) :
    SafeEntry (.write (.upsert kind write)) saved (LoggedProg.updateAlive write)
      (fun _ e => Ends (.write (.upsert kind write)) saved e)
      ⟨s, records, doc, false, countOf doc⟩ := by
  have hinv := hready.inv
  have hidle := hready.idle
  have hstops : Entry.Stops write.r saved ⟨s, records, doc, false, countOf doc⟩ :=
    hready.stops false
  unfold LoggedProg.updateAlive
  refine ⟨hstops, rfl, ?_⟩
  rintro _ e ⟨t, ⟨rfl, rfl⟩, rfl⟩
  rw [Entry.commit_eq _ rfl]
  refine ⟨hstops, trivial, ?_⟩
  rintro n e ⟨u, ⟨hnew, hupdate, rfl⟩, rfl⟩
  rw [Entry.commit_eq _ rfl]
  obtain ⟨hlive, hnone, -, hrow⟩ := hinv.bare n hnew
  have hnc := hinv.current_ne_of_new hnew
  have howned : (t.allocate n).owned n = true := Function.update_self _ _ _
  have hkept : (t.allocate n).owned (t.current write.r) = true :=
    (Function.update_of_ne hnc _ _).trans hinv.owned_current
  have hfits : LogRecord.Fits write.r t.bare
      ⟨.kUpdate, write.r, n, t.current write.r, some write.vector, write.metadata⟩ :=
    .update n write.vector write.metadata halive ⟨hupdate, hnone, hlive⟩
  have hlog := hready.log (t.allocate n) hfits rfl
  have hplaced := hready.place hfits (.inr rfl)
  rw [write.onDoc_eq .kUpdate n (t.current write.r) (.inr rfl)] at hlog hplaced
  have hbefore : doc.bind Prod.snd = t.rows (t.current write.r) := by
    rw [← hready.doc_eq]
    exact halive.row_docWith _
  rw [hbefore] at hplaced
  refine safe_logOp _ rfl rfl ⟨hstops.legal, hstops.recoverable, hstops.tally⟩ rfl
    (fun _ => howned) ?_
  have hinv' : (t.allocate n).Inv write.r := hinv.allocate ⟨hnew, hupdate, rfl⟩
  -- What is left: the new version, and what the old one leaves to it.
  have hsplit : (LoggedProg.ofProg do
      insertNode n write.vector write.plan
      recordUpdateMapping write.r n
      tombstone (t.current write.r)
      migrateMetadata (t.current write.r) n write.metadata
      deleteRow (t.current write.r)) = (LoggedProg.ofProg
        (insertNode n write.vector write.plan >>= fun _ => recordUpdateMapping write.r n >>=
          fun _ => tombstone (t.current write.r)) >>= fun _ =>
      LoggedProg.ofProg (migrateMetadata (t.current write.r) n write.metadata) >>= fun _ =>
      LoggedProg.ofProg (deleteRow (t.current write.r) : Prog V Row Unit)) := by
    rw [← LoggedProg.ofProg_bind, ← LoggedProg.ofProg_bind, Program.bind_assoc,
      Program.bind_assoc]
  change SafeEntry _ _ (LoggedProg.ofProg do
      insertNode n write.vector write.plan
      recordUpdateMapping write.r n
      tombstone (t.current write.r)
      migrateMetadata (t.current write.r) n write.metadata
      deleteRow (t.current write.r)) _ _
  rw [hsplit]
  apply Safe.bind
  refine (safe_ofProg (e := ⟨t.allocate n, _, _, true, _⟩) (.write (.upsert kind write))
    (plain_replaceNode write.vector write.plan _) (safe_replaceNode hinv' halive howned
      (hinv.ne_of_new hnew) ⟨hupdate, hnone, hlive⟩ write.vector write.plan) hinv' hlog).mono ?_
  rintro _ ⟨u, later, known, counted, tally⟩ ⟨rfl, hinv', hrows, heq⟩
  cases heq
  have hdead : (replayed saved (records ++ [⟨.kUpdate, write.r, n, t.current write.r,
      some write.vector, write.metadata⟩])).tombstoned (t.current write.r) = true := by
    rw [replayed_snoc]
    exact Function.update_self _ _ _
  refine safe_moveRow_logged (.upsert kind write)
    (u := (((t.allocate n).store n write.vector).record write.r n).tombstone
      (t.current write.r)) hkept howned hrow
    ⟨hlog.legal, hlog.recoverable, hlog.tally⟩ hplaced hdead fun hcommitted =>
      ⟨hready.snoc hfits ?_ ((Slice.Writes.update n halive hnew).idle hinv hidle) ?_ hcommitted,
        by rintro ⟨⟩, (hready.countOf_of_alive halive).trans (write.countOf_onDoc doc).symm⟩
  · refine (hinv'.putMetadata howned _).setRow ?_ none
    exact (congrFun (Slice.putMetadata_owned _) _).trans hkept
  · exact Slice.bare_putMetadata _ n _

theorem safe_isAlive_logged (call : IdCall V Row) {e : Entry V Row}
    {follow : Bool → LoggedProg V Row α} {Post : α → Entry V Row → Prop}
    (hinv : e.slice.Inv call.r) (hstops : e.Stops call.r saved)
    (hnext : ∀ alive, (alive = true ↔ e.slice.Alive call.r) →
      SafeEntry call saved (follow alive) Post e) :
    SafeEntry call saved (LoggedProg.ofProg (isAlive call.r) >>= follow) Post e := by
  apply Safe.bind
  refine (safe_ofProg call (plain_isAlive _) (safe_isAlive hinv) hinv hstops).mono ?_
  rintro alive ⟨u, later, known, counted, tally⟩ ⟨⟨rfl, halive⟩, -, -, heq⟩
  cases heq
  exact hnext alive halive

/-- A write finds its way after at most one change of direction. -/
theorem safe_writeDense_logged {kind : Kind} {write : Write V Row}
    (hready : Ready write.r saved s records doc) (hr : write.r < 2 ^ 63) (start : Kind) :
    SafeEntry (.write (.upsert kind write)) saved (LoggedProg.writeDense 2 start write)
      (fun _ e => Ends (.write (.upsert kind write)) saved e)
      ⟨s, records, doc, false, countOf doc⟩ := by
  have hstops : Entry.Stops write.r saved ⟨s, records, doc, false, countOf doc⟩ :=
    hready.stops false
  have hinsert : ∀ fuel, ¬s.Alive write.r →
      SafeEntry (.write (.upsert kind write)) saved
        (LoggedProg.writeDense (fuel + 1) .insert write)
        (fun _ e => Ends (.write (.upsert kind write)) saved e)
        ⟨s, records, doc, false, countOf doc⟩ := by
    intro fuel hdead
    unfold LoggedProg.writeDense
    refine safe_isAlive_logged (.write (.upsert kind write)) hready.inv hstops ?_
    intro alive halive
    cases alive with
    | true => exact absurd (halive.mp rfl) hdead
    | false =>
        apply Safe.bind
        exact (safe_insertDead_logged hready hr hdead).mono fun _ _ hends => hends
  have hupdate : ∀ fuel, s.Alive write.r →
      SafeEntry (.write (.upsert kind write)) saved
        (LoggedProg.writeDense (fuel + 1) .update write)
        (fun _ e => Ends (.write (.upsert kind write)) saved e)
        ⟨s, records, doc, false, countOf doc⟩ := by
    intro fuel hlive
    unfold LoggedProg.writeDense
    refine safe_isAlive_logged (.write (.upsert kind write)) hready.inv hstops ?_
    intro alive halive
    cases alive with
    | false => exact absurd (halive.mpr hlive) (by simp)
    | true =>
        apply Safe.bind
        exact (safe_updateAlive_logged hready hlive).mono fun _ _ hends => hends
  unfold LoggedProg.writeDense
  cases start with
  | insert =>
      refine safe_isAlive_logged (.write (.upsert kind write)) hready.inv hstops ?_
      intro alive halive
      cases alive with
      | true => exact hupdate 0 (halive.mp rfl)
      | false =>
          apply Safe.bind
          exact (safe_insertDead_logged hready hr fun h => absurd (halive.mpr h) (by simp)).mono
            fun _ _ hends => hends
  | update =>
      refine safe_isAlive_logged (.write (.upsert kind write)) hready.inv hstops ?_
      intro alive halive
      cases alive with
      | true =>
          apply Safe.bind
          exact (safe_updateAlive_logged hready (halive.mp rfl)).mono fun _ _ hends => hends
      | false => exact hinsert 0 fun h => absurd (halive.mpr h) (by simp)

theorem safe_deleteDense_logged (hready : Ready r saved s records doc) :
    SafeEntry (.write (.delete r)) saved (LoggedProg.deleteDense r)
      (fun _ e => Ends (.write (.delete r)) saved e) ⟨s, records, doc, false, countOf doc⟩ := by
  have hinv := hready.inv
  have hidle := hready.idle
  have hstops : Entry.Stops r saved ⟨s, records, doc, false, countOf doc⟩ := hready.stops false
  unfold LoggedProg.deleteDense
  refine safe_isAlive_logged (.write (.delete r)) hinv hstops ?_
  intro alive halive
  refine ⟨hstops, rfl, ?_⟩
  rintro _ e ⟨t, ⟨rfl, rfl⟩, rfl⟩
  rw [Entry.commit_eq _ rfl]
  refine ⟨hstops, hinv.owned_current, ?_⟩
  rintro _ e ⟨u, ⟨rfl, rfl⟩, rfl⟩
  rw [Entry.commit_eq _ rfl]
  change SafeEntry _ saved (bif (u.vectors (u.current r)).isSome then do
      LoggedProg.logOp ⟨.kDelete, r, u.current r, 0, none, none⟩
      LoggedProg.ofProg do
        tombstone (u.current r)
        deleteRow (u.current r)
        forgetUpdateMapping r
      bif alive then LoggedProg.addLiveCount (-1) else pure ()
      pure true
    else pure true) _ ⟨u, records, doc, false, countOf doc⟩
  cases hpresent : (u.vectors (u.current r)).isSome with
  | false =>
      refine ⟨hready, fun _ => ?_, rfl⟩
      change none = doc
      rw [← hready.doc_eq]
      refine (Slice.doc_of_dead ?_).symm
      rintro ⟨-, hvector⟩
      exact absurd (hpresent.symm.trans hvector) (by simp)
  | true =>
      have hfits : LogRecord.Fits r u.bare ⟨.kDelete, r, u.current r, 0, none, none⟩ :=
        .delete hpresent
      have hlog := hready.log u hfits rfl
      have hcommitted := hready.committed.delete hready.legal hready.tidy
        (hready.versions ▸ hfits) rfl
      have hdropped : Committed r saved
          (records ++ [⟨.kDelete, r, u.current r, 0, none, none⟩])
          (Function.update u.rows (u.current r) none) none := by
        refine hcommitted.drop ?_
        rw [replayed_snoc, ← hready.versions]
        exact Function.update_self _ _ _
      refine safe_logOp (.write (.delete r)) rfl rfl hstops rfl
        (fun _ => hinv.owned_current) ?_
      have htomb : Slice.Allowed r (.tombstone (u.current r)) u :=
        ⟨hinv.owned_current, hpresent, fun hmap => (hidle.mapped _ hmap).1⟩
      refine ⟨hlog, htomb, ?_⟩
      rintro _ _ ⟨_, rfl, rfl⟩
      refine ⟨⟨hlog.legal, hlog.recoverable, hlog.tally⟩, hinv.owned_current, ?_⟩
      rintro _ _ ⟨_, rfl, rfl⟩
      have hinv' : ((u.tombstone (u.current r)).setRow (u.current r) none).Inv r :=
        (hinv.tombstone hinv.owned_current hpresent htomb.2.2).setRow hinv.owned_current none
      have hforget : Slice.Allowed r (.forgetUpdateMapping r)
          ((u.tombstone (u.current r)).setRow (u.current r) none) := by
        refine ⟨rfl, fun m hm => ⟨?_, hidle.tombstoned_direct⟩⟩
        have hcurrent : u.current r = m := by
          unfold Slice.current
          rw [show u.mapping = some m from hm]
          rfl
        rw [← hcurrent]
        exact Function.update_self _ _ _
      refine ⟨⟨hlog.legal, .inl hdropped, hlog.tally⟩, hforget, ?_⟩
      rintro _ _ ⟨_, rfl, rfl⟩
      have hready' := hready.snoc hfits hinv'.forget hidle.deleted rfl hdropped
      -- Only an id that was alive leaves the count.
      cases alive with
      | true =>
          have hone := hready.countOf_of_alive (halive.mp rfl)
          refine safe_addLiveCount (.write (.delete r))
            ⟨hready'.legal, .inl hdropped, hlog.tally⟩ ⟨hready', by rintro ⟨⟩, ?_⟩
          change countOf doc + -1 = 0
          rw [hone]
          rfl
      | false =>
          exact ⟨hready', by rintro ⟨⟩,
            hready.countOf_of_dead fun h => absurd (halive.mpr h) (by simp)⟩

/-- A payload call counts with its row. -/
theorem safe_putCurrentRow_logged {call : PayloadCall Row}
    (hready : Ready call.r saved s records doc) (halive : s.Alive call.r) {row : Row}
    (hdoc : call.onDoc doc = doc.map (Prod.map id fun _ => some row)) :
    SafeEntry (.payload call) saved
      (LoggedProg.ofProg do
        putRow (s.current call.r) row
        pure true) (fun _ e => Ends (.payload call) saved e)
      ⟨s, records, doc, false, countOf doc⟩ := by
  refine ⟨hready.stops false, hready.inv.owned_current, ?_⟩
  rintro _ _ ⟨_, rfl, rfl⟩
  have hput := hready.committed.put hready.legal (hready.versions ▸ halive) row
  rw [← hready.versions] at hput
  refine ⟨⟨hready.inv.setRow hready.inv.owned_current _, hready.idle.setRow halive row,
    hready.tidy, hready.versions, hready.legal, ?_⟩, by rintro ⟨⟩, ?_⟩
  · change Committed _ _ _ _ (call.onDoc doc)
    rw [hdoc]
    exact hput
  · change countOf doc = countOf (call.onDoc doc)
    rw [hdoc]
    cases doc <;> rfl

theorem Ready.onDoc_of_dead {call : PayloadCall Row}
    (hready : Ready call.r saved s records doc) (hdead : ¬s.Alive call.r) :
    call.onDoc doc = doc := by
  rw [← hready.doc_eq, Slice.doc_of_dead hdead]
  rfl

theorem safe_getRow_logged (call : IdCall V Row) {e : Entry V Row} {i : Nat}
    {follow : Option Row → Prog V Row α} {Post : α → Entry V Row → Prop}
    (howned : e.slice.owned i = true) (hstops : e.Stops call.r saved)
    (hnext : SafeEntry call saved (LoggedProg.ofProg (follow (e.slice.rows i))) Post e) :
    SafeEntry call saved (LoggedProg.ofProg (getRow i >>= follow)) Post e := by
  refine ⟨hstops, howned, ?_⟩
  rintro _ _ ⟨_, ⟨rfl, rfl⟩, rfl⟩
  rw [Entry.commit_eq _ (by cases call <;> rfl)]
  exact hnext

theorem safe_payload_logged {call : PayloadCall Row}
    (hready : Ready call.r saved s records doc) :
    SafeEntry (.payload call) saved (LoggedProg.ofProg call.program)
      (fun _ e => Ends (.payload call) saved e) ⟨s, records, doc, false, countOf doc⟩ := by
  have hstops : Entry.Stops call.r saved ⟨s, records, doc, false, countOf doc⟩ :=
    hready.stops false
  have howned := hready.inv.owned_current
  cases call with
  | set r row =>
      change SafeEntry _ _ (LoggedProg.ofProg (isAlive r >>= _)) _ _
      rw [LoggedProg.ofProg_bind]
      refine safe_isAlive_logged (.payload (.set r row)) hready.inv hstops ?_
      intro alive halive
      cases alive with
      | false =>
          exact ⟨hready, fun _ => hready.onDoc_of_dead fun h => absurd (halive.mpr h) (by simp),
            rfl⟩
      | true =>
          refine ⟨hstops, rfl, ?_⟩
          rintro _ _ ⟨_, ⟨rfl, rfl⟩, rfl⟩
          exact safe_putCurrentRow_logged hready (halive.mp rfl) rfl
  | update r patch =>
      change SafeEntry _ _ (LoggedProg.ofProg (isAlive r >>= _)) _ _
      rw [LoggedProg.ofProg_bind]
      refine safe_isAlive_logged (.payload (.update r patch)) hready.inv hstops ?_
      intro alive halive
      cases alive with
      | false =>
          exact ⟨hready, fun _ => hready.onDoc_of_dead fun h => absurd (halive.mpr h) (by simp),
            rfl⟩
      | true =>
          refine ⟨hstops, rfl, ?_⟩
          rintro _ _ ⟨_, ⟨rfl, rfl⟩, rfl⟩
          refine ⟨hstops, howned, ?_⟩
          rintro _ _ ⟨_, ⟨rfl, rfl⟩, rfl⟩
          refine safe_putCurrentRow_logged hready (halive.mp rfl) ?_
          obtain ⟨vector, rfl⟩ := hready.doc_of_alive (halive.mp rfl)
          rfl
  | deleteKeys r erase =>
      refine ⟨hstops, rfl, ?_⟩
      rintro _ _ ⟨s, ⟨rfl, rfl⟩, rfl⟩
      apply safe_getRow_logged (.payload (.deleteKeys r erase))
        (e := ⟨s, records, doc, false, countOf doc⟩) (i := s.current r) howned hstops
      cases herased : (s.rows (s.current r)).bind erase with
      | none =>
          refine Ends.mk hready (fun _ => ?_) rfl
          by_cases halive : s.Alive r
          · obtain ⟨vector, rfl⟩ := hready.doc_of_alive halive
            change some (vector, ((s.rows (s.current r)).bind erase).or _) = _
            rw [herased, Option.none_or]
          · exact hready.onDoc_of_dead halive
      | some row =>
          obtain ⟨existing, hrow, -⟩ := Option.bind_eq_some_iff.mp herased
          have halive := (hready.idle.rows (s.current r) (by rw [hrow]; rfl)).2
          refine safe_putCurrentRow_logged hready halive ?_
          obtain ⟨vector, rfl⟩ := hready.doc_of_alive halive
          change some (vector, ((s.rows (s.current r)).bind erase).or _) = _
          rw [herased]
          rfl

/-- Whenever the call is killed, nothing is lost. -/
theorem safe_program (call : IdCall V Row) (hready : Ready call.r saved s records doc)
    (hr : call.r < 2 ^ 63) :
    SafeEntry call saved call.program (fun _ e => Ends call saved e)
      ⟨s, records, doc, false, countOf doc⟩ := by
  cases call with
  | write call =>
      cases call with
      | upsert kind write => exact safe_writeDense_logged hready hr kind
      | delete r => exact safe_deleteDense_logged hready
  | payload call => exact safe_payload_logged hready

end Calls

end AsterVec.Dense

import AsterVec.DenseLifetimes

/-!
Where a payload comes from.  Rows are kept under internal ids and outlive a crash, while
the counter of the update ids goes back to the checkpoint; as long as a write that takes
an update id finds no row of another id there, no id reads what was given for another.
-/

namespace AsterVec.Dense

open AsterVec.IdTypes
open AsterVec.OpLog (OpType)
open AsterVec.Programs
open Prog

variable {V Row α β : Type}

/-- The documents that calls naming `r` supplied, and what patches and removals of keys by
such calls make of them. -/
inductive Derived (calls : List (PublicCall V Row)) : Nat → Row → Prop
  | written (kind : Kind) (write : Write V Row) (row : Row)
      (hcall : .change (.write (.upsert kind write)) ∈ calls)
      (hrow : write.metadata = some row) : Derived calls write.r row
  | set (r : Nat) (row : Row) (hcall : .change (.rows (.one (.set r row))) ∈ calls) :
      Derived calls r row
  | listed (items : List (Nat × Row)) (r : Nat) (row : Row)
      (hcall : .change (.rows (.batch items)) ∈ calls) (hitem : (r, row) ∈ items) :
      Derived calls r row
  | patched (r : Nat) (patch : Option Row → Row) (existing : Option Row)
      (hcall : .change (.rows (.one (.update r patch))) ∈ calls)
      (hexisting : ∀ row, existing = some row → Derived calls r row) :
      Derived calls r (patch existing)
  | erased (r : Nat) (erase : Row → Option Row) (existing row : Row)
      (hcall : .change (.rows (.one (.deleteKeys r erase))) ∈ calls)
      (hexisting : Derived calls r existing) (hrow : erase existing = some row) :
      Derived calls r row

theorem Derived.mono {calls calls' : List (PublicCall V Row)} (hsub : calls ⊆ calls') {r : Nat}
    {row : Row} (hderived : Derived calls r row) : Derived calls' r row := by
  induction hderived with
  | written kind write row hcall hrow => exact .written kind write row (hsub hcall) hrow
  | set r row hcall => exact .set r row (hsub hcall)
  | listed items r row hcall hitem => exact .listed items r row (hsub hcall) hitem
  | patched r patch existing hcall _ ih => exact .patched r patch existing (hsub hcall) ih
  | erased r erase existing row hcall _ hrow ih =>
      exact .erased r erase existing row (hsub hcall) ih hrow

/-! What a program has -/

/-- `owned r i` tells that the internal id `i` is one of `r`, `taken i` that the counter is
past it, and `kept i` that a crash does not take it back: the checkpoint or the log has it. -/
structure Holdings where
  owned : Nat → Nat → Prop
  taken : Nat → Prop
  kept : Nat → Prop

namespace Holdings

/-- Every id has itself, and the counter starts past these. -/
def direct : Holdings :=
  ⟨fun r i => i = r ∧ r < 2 ^ 63, fun i => i < 2 ^ 63, fun i => i < 2 ^ 63⟩

def own (k : Holdings) (r i : Nat) : Holdings :=
  { k with owned := fun x j => x = r ∧ j = i ∨ k.owned x j }

def take (k : Holdings) (i : Nat) : Holdings := { k with taken := fun j => j = i ∨ k.taken j }

def keep (k : Holdings) (i : Nat) : Holdings := { k with kept := fun j => j = i ∨ k.kept j }

/-- Nothing is lost. -/
structure Grows (k k' : Holdings) : Prop where
  owned : ∀ r i, k.owned r i → k'.owned r i
  taken : ∀ i, k.taken i → k'.taken i
  kept : ∀ i, k.kept i → k'.kept i

theorem Grows.refl (k : Holdings) : k.Grows k :=
  ⟨fun _ _ hown => hown, fun _ htaken => htaken, fun _ hkept => hkept⟩

theorem Grows.trans {k k' k'' : Holdings} (hfirst : k.Grows k') (hsecond : k'.Grows k'') :
    k.Grows k'' :=
  ⟨fun r i hown => hsecond.owned r i (hfirst.owned r i hown),
    fun i htaken => hsecond.taken i (hfirst.taken i htaken),
    fun i hkept => hsecond.kept i (hfirst.kept i hkept)⟩

end Holdings

/-- What runs a program: a write of an id, `GetPayload`, or something else. -/
inductive Role where
  | writer (r : Nat)
  | getter (r : Nat)
  | other

def PublicCall.role : PublicCall V Row → Role
  | change (.write call) => .writer call.r
  | getPayload r => .getter r
  | _ => .other

/-- The id that a writer writes. -/
def Role.id : Role → Nat
  | writer r | getter r => r
  | other => 0

section Handler

variable (P : Nat → Row → Prop)

/-- What is true of a record in the log. -/
structure RecordOwned (owned : Nat → Nat → Prop) (record : LogRecord V Row) : Prop where
  real : record.realId < 2 ^ 63
  internal : owned record.realId record.internalId
  aux : record.op = .kUpdate → owned record.realId record.aux
  payload : ∀ row, record.payload = some row → P record.realId row

namespace Holdings

/-- Rows are written, moved and deleted where they belong, and only a writer takes update
ids. -/
def Allowed (role : Role) : LoggedCall V Row → Holdings → Prop
  | .store (.resolveInternal r), _ => r < 2 ^ 63
  | .store .allocateUpdateId, _ => role = .writer role.id
  | .store (.recordUpdateMapping r i), k => k.owned r i ∧ k.taken i ∧ k.kept i
  | .store (.getRow i), k => ∀ r, role = .getter r → k.owned r i
  | .store (.putRow i row), k => k.kept i ∧ ∃ r, k.owned r i ∧ P r row
  | .store (.putRows items), k =>
      ∀ item ∈ items, k.kept item.1 ∧ ∃ r, k.owned r item.1 ∧ P r item.2
  | .store (.deleteRow i), k => ∃ r, k.owned r i
  | .append record, k => role = .writer record.realId ∧ RecordOwned P k.owned record
  | _, _ => True

def Step (role : Role) : (c : LoggedCall V Row) → Holdings → LoggedReply c → Holdings → Prop
  | .store (.resolveInternal r), k, i, k' => k' = (k.own r i).keep i
  | .store .allocateUpdateId, k, i, k' => k' = (k.own role.id i).take i
  | .store (.getRow i), k, found, k' =>
      k' = k ∧ ∀ r row, k.owned r i → found = some row → P r row
  | .append record, k, _, k' =>
      k' = { k with kept := fun i => record.Inserts ∧ i = record.internalId ∨ k.kept i }
  | .observe i, k, _, k' => k' = k.take i
  | _, k, _, k' => k' = k

def handler (role : Role) : Handler (LoggedCall V Row) LoggedReply Holdings :=
  ⟨Allowed P role, Step P role⟩

end Holdings

/-- The program keeps to what it has. -/
abbrev Confined (role : Role) (p : LoggedProg V Row α) (Post : α → Holdings → Prop) (k : Holdings) :
    Prop :=
  Safe (Holdings.handler P role) (fun _ => True) p Post k

/-- The handler for a program that logs nothing. -/
def Holdings.onStore (role : Role) : Handler (Call V Row) Reply Holdings :=
  ⟨fun c => Holdings.Allowed P role (.store c),
    fun c k reply k' => Holdings.Step P role (.store c) k reply k'⟩

abbrev ConfinedOn (role : Role) (p : Prog V Row α) (Post : α → Holdings → Prop)
    (k : Holdings) : Prop :=
  Safe (Holdings.onStore P role) (fun _ => True) p Post k

end Handler

section Confined

variable {P : Nat → Row → Prop} {role : Role} {Post : α → Holdings → Prop} {k : Holdings}

theorem ConfinedOn.ofProg {p : Prog V Row α} (hconfined : ConfinedOn P role p Post k) :
    Confined P role (LoggedProg.ofProg p) Post k := by
  induction p generalizing k with
  | done value => exact hconfined
  | call c next ih =>
      obtain ⟨-, hallowed, hnext⟩ := hconfined
      exact ⟨trivial, hallowed, fun reply k' hstep => ih reply (hnext reply k' hstep)⟩

/-- A call that tells nothing new. -/
def Silent (P : Nat → Row → Prop) (role : Role) (k : Holdings) (c : Call V Row) : Prop :=
  Holdings.Allowed P role (.store c) k ∧
    ∀ reply k', Holdings.Step P role (.store c) k reply k' → k' = k

theorem confinedOn_call {c : Call V Row} {follow : Reply c → Prog V Row α}
    (hsilent : Silent P role k c) (hnext : ∀ reply, ConfinedOn P role (follow reply) Post k) :
    ConfinedOn P role (perform c >>= follow) Post k := by
  refine ⟨trivial, hsilent.1, fun reply k' hstep => ?_⟩
  obtain rfl := hsilent.2 reply k' hstep
  exact hnext reply

theorem confinedOn_all {p : Prog V Row α} (hall : p.All (Silent P role k)) :
    ConfinedOn P role p (fun _ k' => k' = k) k := by
  induction p with
  | done value => exact rfl
  | call c next ih =>
      refine ⟨trivial, hall.1.1, fun reply k' hstep => ?_⟩
      obtain rfl := hall.1.2 reply k' hstep
      exact ih reply (hall.2 reply)

theorem confinedOn_all_bind {p : Prog V Row β} (hall : p.All (Silent P role k))
    {follow : β → Prog V Row α} (hnext : ∀ value, ConfinedOn P role (follow value) Post k) :
    ConfinedOn P role (p >>= follow) Post k := by
  apply Safe.bind
  apply (confinedOn_all hall).mono
  rintro value _ rfl
  exact hnext value

theorem confinedOn_getRow {i : Nat} {follow : Option Row → Prog V Row α}
    (hown : ∀ r, role = .getter r → k.owned r i)
    (hnext : ∀ found, (∀ r row, k.owned r i → found = some row → P r row) →
      ConfinedOn P role (follow found) Post k) :
    ConfinedOn P role (getRow i >>= follow) Post k := by
  refine ⟨trivial, hown, ?_⟩
  rintro found _ ⟨rfl, hfound⟩
  exact hnext found hfound

theorem confinedOn_resolveInternal {r : Nat} {follow : Nat → Prog V Row α} (hr : r < 2 ^ 63)
    (hnext : ∀ i k', k.Grows k' → k'.owned r i → k'.kept i →
      ConfinedOn P role (follow i) Post k') :
    ConfinedOn P role (resolveInternal r >>= follow) Post k := by
  refine ⟨trivial, hr, ?_⟩
  rintro i _ rfl
  exact hnext i _ ⟨fun _ _ hown => .inr hown, fun _ htaken => htaken, fun _ hkept => .inr hkept⟩
    (.inl ⟨rfl, rfl⟩) (.inl rfl)

theorem confinedOn_allocateUpdateId {r : Nat} {follow : Nat → Prog V Row α}
    (hnext : ∀ i k', k.Grows k' → k'.owned r i → k'.taken i →
      ConfinedOn P (.writer r) (follow i) Post k') :
    ConfinedOn P (.writer r) (allocateUpdateId >>= follow) Post k := by
  refine ⟨trivial, rfl, ?_⟩
  rintro i _ rfl
  exact hnext i _ ⟨fun _ _ hown => .inr hown, fun _ htaken => .inr htaken,
    fun _ hkept => hkept⟩ (.inl ⟨rfl, rfl⟩) (.inl rfl)

theorem silent_putRow {r i : Nat} {row : Row} (hown : k.owned r i) (hkept : k.kept i)
    (hrow : P r row) : Silent P role k (.putRow i row : Call V Row) :=
  ⟨⟨hkept, r, hown, hrow⟩, fun _ _ hstep => hstep⟩

theorem silent_deleteRow {r i : Nat} (hown : k.owned r i) :
    Silent P role k (.deleteRow i : Call V Row) :=
  ⟨⟨r, hown⟩, fun _ _ hstep => hstep⟩

theorem silent_recordUpdateMapping {r i : Nat} (hown : k.owned r i) (htaken : k.taken i)
    (hkept : k.kept i) : Silent P role k (.recordUpdateMapping r i : Call V Row) :=
  ⟨⟨hown, htaken, hkept⟩, fun _ _ hstep => hstep⟩

theorem confinedOn_isAlive {r : Nat} {follow : Bool → Prog V Row α} (hr : r < 2 ^ 63)
    (hnext : ∀ alive k', k.Grows k' → ConfinedOn P role (follow alive) Post k') :
    ConfinedOn P role (isAlive r >>= follow) Post k := by
  unfold isAlive
  rw [Program.bind_assoc]
  apply confinedOn_resolveInternal hr
  intro i k' hgrows _ _
  rw [Program.bind_assoc]
  apply confinedOn_call (c := .isTombstoned i) ⟨trivial, fun _ _ hstep => hstep⟩
  intro dead
  cases (dead : Bool) with
  | true => exact hnext false k' hgrows
  | false =>
      exact confinedOn_call (c := .vectorExists i) ⟨trivial, fun _ _ hstep => hstep⟩
        fun alive => hnext alive k' hgrows

/-- A node is stored and linked without the rows of anyone. -/
theorem silent_insertNode (nodeId : Nat) (vector : V) (plan : Plan) :
    (insertNode nodeId vector plan : Prog V Row Unit).All (Silent P role k) := by
  refine (all_insertNode nodeId vector plan).mono fun c hplaces => ?_
  cases c with
  | loadEntryPoint | storeVector | casEntryPoint | promote | linkUpper | addEdges
    | deleteEdges => exact ⟨trivial, fun _ _ hstep => hstep⟩
  | _ => exact hplaces.elim

theorem all_putMetadata {r i : Nat} (hown : k.owned r i) (hkept : k.kept i)
    {metadata : Option Row} (hmetadata : ∀ row, metadata = some row → P r row) :
    (putMetadata i metadata : Prog V Row Unit).All (Silent P role k) := by
  cases metadata with
  | none => exact trivial
  | some row => exact ⟨silent_putRow hown hkept (hmetadata row rfl), fun _ => trivial⟩

theorem ConfinedOn.ofProg_bind {p : Prog V Row β} {follow : β → LoggedProg V Row α}
    (hconfined : ConfinedOn P role p (fun value => Confined P role (follow value) Post) k) :
    Confined P role (LoggedProg.ofProg p >>= follow) Post k :=
  Safe.bind hconfined.ofProg

theorem confined_logOp {r : Nat} {record : LogRecord V Row}
    {follow : Unit → LoggedProg V Row α} (hreal : record.realId = r)
    (hrecord : RecordOwned P k.owned record)
    (hnext : ∀ k', k.Grows k' → (record.Inserts → k'.kept record.internalId) →
      Confined P (.writer r) (follow ()) Post k') :
    Confined P (.writer r) (LoggedProg.logOp record >>= follow) Post k := by
  refine ⟨trivial, ⟨congrArg Role.writer hreal.symm, hrecord⟩, ?_⟩
  rintro _ _ rfl
  exact hnext _ ⟨fun _ _ hown => hown, fun _ htaken => htaken, fun _ hkept => .inr hkept⟩
    fun hinserts => .inl ⟨hinserts, rfl⟩

theorem confined_silent {p : Prog V Row β} (hall : p.All (Silent P role k))
    {follow : β → LoggedProg V Row α}
    (hnext : ∀ value, Confined P role (follow value) Post k) :
    Confined P role (LoggedProg.ofProg p >>= follow) Post k := by
  apply Safe.bind
  refine (confinedOn_all hall).ofProg.mono ?_
  rintro value _ rfl
  exact hnext value

theorem confined_addLiveCount {change : Int} {follow : Unit → LoggedProg V Row α}
    (hnext : Confined P role (follow ()) Post k) :
    Confined P role (LoggedProg.addLiveCount change >>= follow) Post k := by
  refine ⟨trivial, trivial, ?_⟩
  rintro _ _ rfl
  exact hnext

theorem confined_counted {wasAlive : Bool} {change : Int} {follow : Unit → LoggedProg V Row α}
    (hnext : Confined P role (follow ()) Post k) :
    Confined P role ((bif wasAlive then LoggedProg.addLiveCount change else pure ()) >>= follow)
      Post k := by
  cases wasAlive with
  | true => exact confined_addLiveCount hnext
  | false => exact hnext

theorem confined_uncounted {wasAlive : Bool} {change : Int}
    {follow : Unit → LoggedProg V Row α} (hnext : Confined P role (follow ()) Post k) :
    Confined P role ((bif wasAlive then pure () else LoggedProg.addLiveCount change) >>= follow)
      Post k := by
  cases wasAlive with
  | true => exact hnext
  | false => exact confined_addLiveCount hnext

theorem confined_isAlive {r : Nat} {follow : Bool → LoggedProg V Row α} (hr : r < 2 ^ 63)
    (hnext : ∀ alive k', k.Grows k' → Confined P role (follow alive) Post k') :
    Confined P role (LoggedProg.ofProg (isAlive r) >>= follow) Post k := by
  apply ConfinedOn.ofProg_bind
  rw [← Program.bind_pure (isAlive r)]
  exact confinedOn_isAlive hr hnext

theorem confined_insertDead {k : Holdings} {write : Write V Row} (hr : write.r < 2 ^ 63)
    (hmetadata : ∀ row, write.metadata = some row → P write.r row)
    (hself : k.owned write.r write.r) :
    Confined P (.writer write.r) (LoggedProg.insertDead write) (fun _ _ => True) k := by
  unfold LoggedProg.insertDead
  apply ConfinedOn.ofProg_bind
  refine ⟨trivial, trivial, ?_⟩
  rintro reinsert k rfl
  cases (reinsert : Bool) with
  | true =>
      apply ConfinedOn.ofProg_bind
      apply confinedOn_allocateUpdateId
      intro n k hgrows hown htaken
      apply confined_logOp (by rfl) ⟨hr, hown, by rintro ⟨⟩, hmetadata⟩
      intro k hlogged hkept
      replace hkept := hkept (.inl rfl)
      replace hown := hlogged.owned _ _ hown
      apply confined_silent (p := recordUpdateMapping write.r n >>= fun _ =>
        insertNode n write.vector write.plan)
        ⟨silent_recordUpdateMapping hown (hlogged.taken _ htaken) hkept,
          fun _ => silent_insertNode _ _ _⟩
      intro _
      apply confined_addLiveCount
      apply ConfinedOn.ofProg
      exact (confinedOn_all (all_putMetadata hown hkept hmetadata)).mono fun _ _ _ => trivial
  | false =>
      apply ConfinedOn.ofProg_bind
      apply confined_logOp (by rfl) ⟨hr, hself, by rintro ⟨⟩, hmetadata⟩
      intro k hlogged hkept
      replace hkept := hkept (.inl rfl)
      apply confined_silent (silent_insertNode write.r write.vector write.plan)
      intro _
      apply confined_addLiveCount
      apply ConfinedOn.ofProg
      exact (confinedOn_all (all_putMetadata (hlogged.owned _ _ hself) hkept hmetadata)).mono
        fun _ _ _ => trivial

/-- The row of the old version belongs to the new one as well. -/
theorem confinedOn_migrateMetadata {r oldInternal newInternal : Nat} {metadata : Option Row}
    {follow : Unit → Prog V Row α}
    (hgetter : ∀ x, role ≠ .getter x) (hold : k.owned r oldInternal)
    (hnew : k.owned r newInternal) (hkept : k.kept newInternal)
    (hmetadata : ∀ row, metadata = some row → P r row)
    (hnext : ConfinedOn P role (follow ()) Post k) :
    ConfinedOn P role (migrateMetadata oldInternal newInternal metadata >>= follow) Post k := by
  cases metadata with
  | some row =>
      exact confinedOn_call (silent_putRow hnew hkept (hmetadata row rfl)) fun _ => hnext
  | none =>
      unfold migrateMetadata
      rw [Program.bind_assoc]
      apply confinedOn_getRow fun x hx => absurd hx (hgetter x)
      intro oldMeta hfound
      have hmoved : ∀ row, oldMeta = some row → P r row :=
        fun row hrow => hfound r row hold hrow
      exact confinedOn_all_bind (all_putMetadata hnew hkept hmoved) fun _ => hnext

theorem confined_updateAlive {k : Holdings} {write : Write V Row} (hr : write.r < 2 ^ 63)
    (hmetadata : ∀ row, write.metadata = some row → P write.r row) :
    Confined P (.writer write.r) (LoggedProg.updateAlive write) (fun _ _ => True) k := by
  unfold LoggedProg.updateAlive
  apply ConfinedOn.ofProg_bind
  rw [← Program.bind_pure (resolveInternal write.r)]
  apply confinedOn_resolveInternal hr
  intro oldInternal k _ hold _
  apply ConfinedOn.ofProg_bind
  rw [← Program.bind_pure allocateUpdateId]
  apply confinedOn_allocateUpdateId
  intro newInternal k hgrows hnew htaken
  replace hold := hgrows.owned _ _ hold
  apply confined_logOp (by rfl) ⟨hr, hnew, fun _ => hold, hmetadata⟩
  intro k hlogged hkept
  replace hkept := hkept (.inr rfl)
  replace hold := hlogged.owned _ _ hold
  replace hnew := hlogged.owned _ _ hnew
  apply ConfinedOn.ofProg
  apply confinedOn_all_bind (silent_insertNode _ _ _)
  intro _
  apply confinedOn_call (silent_recordUpdateMapping hnew (hlogged.taken _ htaken) hkept)
  intro _
  apply confinedOn_call (c := .tombstone oldInternal) ⟨trivial, fun _ _ hstep => hstep⟩
  intro _
  apply confinedOn_migrateMetadata (by rintro _ ⟨⟩) hold hnew hkept hmetadata
  exact confinedOn_call (silent_deleteRow hold) fun _ => trivial

theorem confined_writeDense {write : Write V Row} (hr : write.r < 2 ^ 63)
    (hmetadata : ∀ row, write.metadata = some row → P write.r row) (fuel : Nat) (kind : Kind)
    (hself : k.owned write.r write.r) :
    Confined P (.writer write.r) (LoggedProg.writeDense fuel kind write)
      (fun _ _ => True) k := by
  induction fuel generalizing kind k with
  | zero => exact trivial
  | succ fuel ih =>
      have halive : ∀ follow : Bool → LoggedProg V Row Bool,
          (∀ alive (k' : Holdings), k'.owned write.r write.r →
            Confined P (.writer write.r) (follow alive) (fun _ _ => True) k') →
          Confined P (.writer write.r) (LoggedProg.ofProg (isAlive write.r) >>= follow)
            (fun _ _ => True) k := by
        intro follow hfollow
        exact confined_isAlive hr fun alive k' hgrows =>
          hfollow alive k' (hgrows.owned _ _ hself)
      cases kind with
      | insert =>
          apply halive
          intro alive k' hself'
          cases alive with
          | true => exact ih .update hself'
          | false =>
              apply Safe.bind
              exact (confined_insertDead hr hmetadata hself').mono fun _ _ _ => trivial
      | update =>
          apply halive
          intro alive k' hself'
          cases alive with
          | true =>
              apply Safe.bind
              exact (confined_updateAlive hr hmetadata).mono fun _ _ _ => trivial
          | false => exact ih .insert hself'

theorem all_delete {r i : Nat} (hown : k.owned r i) :
    (tombstone i >>= fun _ => deleteRow i >>= fun _ => forgetUpdateMapping r :
      Prog V Row Unit).All (Silent P role k) :=
  ⟨⟨trivial, fun _ _ hstep => hstep⟩, fun _ => ⟨silent_deleteRow hown, fun _ =>
    ⟨⟨trivial, fun _ _ hstep => hstep⟩, fun _ => trivial⟩⟩⟩

theorem confined_deleteDense {k : Holdings} {r : Nat} (hr : r < 2 ^ 63) :
    Confined P (.writer r) (LoggedProg.deleteDense r : LoggedProg V Row Bool)
      (fun _ _ => True) k := by
  unfold LoggedProg.deleteDense
  apply confined_isAlive hr
  intro _ k _
  apply ConfinedOn.ofProg_bind
  rw [← Program.bind_pure (resolveInternal r)]
  apply confinedOn_resolveInternal hr
  intro i k _ hown _
  apply ConfinedOn.ofProg_bind
  refine ⟨trivial, trivial, ?_⟩
  rintro present k rfl
  cases (present : Bool) with
  | false => exact trivial
  | true =>
      apply confined_logOp (by rfl) ⟨hr, hown, by rintro ⟨⟩, by rintro _ ⟨⟩⟩
      intro k hlogged _
      apply confined_silent (all_delete (hlogged.owned _ _ hown))
      intro _
      exact confined_counted trivial

theorem confinedOn_payload {k : Holdings} {call : PayloadCall Row} (hr : call.r < 2 ^ 63)
    (hset : ∀ r row, call = .set r row → P r row)
    (hupdate : ∀ r patch existing, call = .update r patch →
      (∀ row, existing = some row → P r row) → P r (patch existing))
    (hdelete : ∀ r erase existing row, call = .deleteKeys r erase → P r existing →
      erase existing = some row → P r row) :
    ConfinedOn P .other (call.program : Prog V Row Bool) (fun _ _ => True) k := by
  cases call with
  | set r row =>
      apply confinedOn_isAlive hr
      intro alive k _
      cases alive with
      | false => exact trivial
      | true =>
          apply confinedOn_resolveInternal hr
          intro i k _ hown hkept
          exact confinedOn_call (silent_putRow hown hkept (hset r row rfl)) fun _ => trivial
  | update r patch =>
      apply confinedOn_isAlive hr
      intro alive k _
      cases alive with
      | false => exact trivial
      | true =>
          apply confinedOn_resolveInternal hr
          intro i k _ hown hkept
          apply confinedOn_getRow (by rintro _ ⟨⟩)
          intro existing hfound
          have hpatched := hupdate r patch existing rfl
            fun row hrow => hfound r row hown hrow
          exact confinedOn_call (silent_putRow hown hkept hpatched) fun _ => trivial
  | deleteKeys r erase =>
      apply confinedOn_resolveInternal hr
      intro i k _ hown hkept
      apply confinedOn_getRow (by rintro _ ⟨⟩)
      intro existing hfound
      cases herased : existing.bind erase with
      | none => exact trivial
      | some row =>
          obtain ⟨old, hold, hrow⟩ := Option.bind_eq_some_iff.mp herased
          have hleft := hdelete r erase old row rfl (hfound r old hown hold) hrow
          exact confinedOn_call (silent_putRow hown hkept hleft) fun _ => trivial

/-- The rows of a batch, each where its id resolved. -/
def Placed (P : Nat → Row → Prop) (k : Holdings) (rows : List (Nat × Row)) : Prop :=
  ∀ item ∈ rows, k.kept item.1 ∧ ∃ r, k.owned r item.1 ∧ P r item.2

theorem confinedOn_resolveItems {k : Holdings} {items : List (Nat × Row)}
    (hitems : ∀ item ∈ items, item.1 < 2 ^ 63 ∧ P item.1 item.2) :
    ConfinedOn P .other (resolveItems items : Prog V Row (Option (List (Nat × Row))))
      (fun found k' => k.Grows k' ∧ ∀ rows, found = some rows → Placed P k' rows) k := by
  induction items generalizing k with
  | nil =>
      refine ⟨.refl k, ?_⟩
      rintro _ ⟨⟩
      exact List.forall_mem_nil _
  | cons item items ih =>
      obtain ⟨r, row⟩ := item
      obtain ⟨⟨hr, hrow⟩, hrest⟩ := List.forall_mem_cons.mp hitems
      apply confinedOn_isAlive hr
      intro alive k' halive
      cases alive with
      | false => exact ⟨halive, by rintro _ ⟨⟩⟩
      | true =>
          apply confinedOn_resolveInternal hr
          intro i k' hresolved hown hkept
          apply Safe.bind
          apply (ih hrest).mono
          rintro found later ⟨hgrows, hplaced⟩
          refine ⟨(halive.trans hresolved).trans hgrows, ?_⟩
          intro rows hrows
          obtain ⟨tail, htail, rfl⟩ := Option.map_eq_some_iff.mp hrows
          exact List.forall_mem_cons.mpr
            ⟨⟨hgrows.kept i hkept, r, hgrows.owned r i hown, hrow⟩, hplaced tail htail⟩

theorem confinedOn_setPayloadBatch {k : Holdings} {items : List (Nat × Row)}
    (hitems : ∀ item ∈ items, item.1 < 2 ^ 63 ∧ P item.1 item.2) :
    ConfinedOn P .other (setPayloadBatch items : Prog V Row Bool) (fun _ _ => True) k := by
  apply Safe.bind
  apply (confinedOn_resolveItems hitems).mono
  rintro found k' ⟨-, hplaced⟩
  cases found with
  | none => exact trivial
  | some rows =>
      exact confinedOn_call (c := .putRows rows) ⟨hplaced rows rfl, fun _ _ hstep => hstep⟩
        fun _ => trivial

theorem confinedOn_getPayloadDense {r : Nat} (hr : r < 2 ^ 63) :
    ConfinedOn P (.getter r) (getPayloadDense r : Prog V Row (Option Row))
      (fun _ _ => True) k := by
  apply confinedOn_resolveInternal hr
  intro i k _ hown _
  refine ⟨trivial, ?_, fun _ _ _ => trivial⟩
  rintro _ ⟨⟩
  exact hown

theorem confinedOn_search (s : Search V Row) :
    ConfinedOn P .other s.program (fun _ _ => True) k := by
  have hall : s.program.All (Silent P .other k) := by
    refine s.reads.mono fun c hread => ?_
    cases c with
    | getRow i => exact ⟨nofun, fun _ _ hstep => hstep.1⟩
    | resolveReal i | isTombstoned i | vectorExists i | readVector i | loadEntryPoint
    | getEdges i => exact ⟨trivial, fun _ _ hstep => hstep⟩
    | _ => exact hread.elim
  exact (confinedOn_all hall).mono fun _ _ _ => trivial

/-! The replay keeps to the ids of the records -/

theorem RecordOwned.grows {k k' : Holdings} {record : LogRecord V Row}
    (hrecord : RecordOwned P k.owned record) (hgrows : k.Grows k') :
    RecordOwned P k'.owned record :=
  ⟨hrecord.real, hgrows.owned _ _ hrecord.internal,
    fun hop => hgrows.owned _ _ (hrecord.aux hop), hrecord.payload⟩

theorem confined_observeUpdateId {i : Nat} {follow : Unit → LoggedProg V Row α}
    (hdirect : ∀ j < 2 ^ 63, k.taken j)
    (hnext : ∀ k', k.Grows k' → k'.taken i → Confined P role (follow ()) Post k') :
    Confined P role (LoggedProg.observeUpdateId i >>= follow) Post k := by
  unfold LoggedProg.observeUpdateId
  cases hi : isDirectId i with
  | true => exact hnext k (.refl k) (hdirect i ((isDirectId_iff i).mp hi))
  | false =>
      refine ⟨trivial, trivial, ?_⟩
      rintro _ _ rfl
      exact hnext _ ⟨fun _ _ hown => hown, fun _ htaken => .inr htaken, fun _ hkept => hkept⟩
        (.inl rfl)

theorem confinedOn_fillRow {i : Nat} {fill : Prog V Row Unit}
    {follow : Unit → Prog V Row α}
    (hfill : ConfinedOn P .other (fill >>= follow) Post k)
    (hnext : ConfinedOn P .other (follow ()) Post k) :
    ConfinedOn P .other (fillRow i fill >>= follow) Post k := by
  unfold fillRow
  rw [Program.bind_assoc]
  apply confinedOn_getRow (by rintro _ ⟨⟩)
  intro found _
  cases found with
  | some _ => exact hnext
  | none => exact hfill

variable {record : LogRecord V Row}

theorem all_fillRow {r i : Nat} (hown : k.owned r i) (hkept : k.kept i)
    {metadata : Option Row} (hmetadata : ∀ row, metadata = some row → P r row) :
    (fillRow i (putMetadata i metadata) : Prog V Row Unit).All (Silent P .other k) := by
  refine ⟨⟨nofun, fun _ _ hstep => hstep.1⟩, fun found => ?_⟩
  cases (found : Option Row) with
  | some _ => exact trivial
  | none => exact all_putMetadata hown hkept hmetadata

theorem confined_replayInsert (hrecord : RecordOwned P k.owned record)
    (htaken : k.taken record.internalId) (hkept : k.kept record.internalId) (vector : V)
    (plan : Plan) :
    Confined P .other (LoggedProg.replayInsert record vector plan)
      (fun _ k' => k.Grows k') k := by
  apply confined_isAlive hrecord.real
  intro wasAlive k' hgrows
  have hown := hgrows.owned _ _ hrecord.internal
  replace hkept := hgrows.kept _ hkept
  apply confined_silent
  · refine .bind ?_ fun _ => silent_insertNode _ _ _
    cases isDirectId record.internalId with
    | true => exact trivial
    | false =>
        exact ⟨silent_recordUpdateMapping hown (hgrows.taken _ htaken) hkept,
          fun _ => trivial⟩
  intro _
  apply confined_uncounted
  apply ConfinedOn.ofProg
  refine (confinedOn_all (all_fillRow hown hkept hrecord.payload)).mono ?_
  rintro _ _ rfl
  exact hgrows

theorem confined_replayUpdate (hop : record.op = .kUpdate)
    (hrecord : RecordOwned P k.owned record) (htaken : k.taken record.internalId)
    (hkept : k.kept record.internalId) (vector : V) (plan : Plan) :
    Confined P .other (LoggedProg.replayUpdate record vector plan)
      (fun _ k' => k.Grows k') k := by
  apply confined_isAlive hrecord.real
  intro wasAlive k' hgrows
  have hown := hgrows.owned _ _ hrecord.internal
  have hold := hgrows.owned _ _ (hrecord.aux hop)
  replace hkept := hgrows.kept _ hkept
  apply confined_silent
  · exact (silent_insertNode _ _ _).bind fun _ =>
      ⟨silent_recordUpdateMapping hown (hgrows.taken _ htaken) hkept,
        fun _ => ⟨⟨trivial, fun _ _ hstep => hstep⟩, fun _ => trivial⟩⟩
  intro _
  apply confined_uncounted
  apply ConfinedOn.ofProg
  have hdelete : ConfinedOn P .other (deleteRow record.aux : Prog V Row Unit)
      (fun _ k' => k.Grows k') k' :=
    confinedOn_call (silent_deleteRow hold) fun _ => hgrows
  apply confinedOn_fillRow _ hdelete
  exact confinedOn_migrateMetadata (by rintro _ ⟨⟩) hold hown hkept hrecord.payload hdelete

theorem confined_replayDelete (hrecord : RecordOwned P k.owned record) :
    Confined P .other (LoggedProg.replayDelete record) (fun _ k' => k.Grows k') k := by
  apply confined_isAlive hrecord.real
  intro wasAlive k' hgrows
  apply confined_silent (all_delete (hgrows.owned _ _ hrecord.internal))
  intro _
  rw [← Program.bind_pure (bif wasAlive then _ else _)]
  exact confined_counted hgrows

/-- What a record needs to be replayed. -/
structure Replayable (P : Nat → Row → Prop) (k : Holdings) (record : LogRecord V Row) :
    Prop where
  owned : RecordOwned P k.owned record
  kept : record.Inserts → k.kept record.internalId

theorem Replayable.grows {k k' : Holdings} (hrecord : Replayable P k record)
    (hgrows : k.Grows k') : Replayable P k' record :=
  ⟨hrecord.owned.grows hgrows, fun hinserts => hgrows.kept _ (hrecord.kept hinserts)⟩

theorem confined_replayRecord {entry : LogEntry V Row}
    (hrecord : Replayable P k entry.record) (hdirect : ∀ j < 2 ^ 63, k.taken j)
    (plan : Plan) :
    Confined P .other (entry.replayRecord plan) (fun _ k' => k.Grows k' ∧
      (entry.record.Inserts → k'.taken entry.record.internalId)) k := by
  unfold LogRecord.Inserts LogEntry.replayRecord
  cases hop : entry.record.op with
  | kAbort | other => exact ⟨.refl k, by simp⟩
  | kInsert =>
      apply confined_observeUpdateId hdirect
      intro k' hgrows htaken
      obtain ⟨howned, hkept⟩ := hrecord.grows hgrows
      cases entry.aborted with
      | true => exact ⟨hgrows, fun _ => htaken⟩
      | false =>
          cases entry.record.vector with
          | none => exact ⟨hgrows, fun _ => htaken⟩
          | some vector =>
              apply Safe.bind
              refine (confined_replayInsert howned htaken (hkept (.inl hop)) vector plan).mono ?_
              exact fun _ later hlater => ⟨hgrows.trans hlater, fun _ => hlater.taken _ htaken⟩
  | kUpdate =>
      apply confined_observeUpdateId hdirect
      intro k' hgrows htaken
      obtain ⟨howned, hkept⟩ := hrecord.grows hgrows
      cases entry.aborted with
      | true => exact ⟨hgrows, fun _ => htaken⟩
      | false =>
          cases entry.record.vector with
          | none => exact ⟨hgrows, fun _ => htaken⟩
          | some vector =>
              apply Safe.bind
              refine (confined_replayUpdate hop howned htaken (hkept (.inr hop)) vector
                plan).mono ?_
              exact fun _ later hlater => ⟨hgrows.trans hlater, fun _ => hlater.taken _ htaken⟩
  | kDelete =>
      cases entry.aborted with
      | true => exact ⟨.refl k, by simp⟩
      | false =>
          apply Safe.bind
          refine (confined_replayDelete hrecord.owned).mono ?_
          exact fun _ later hlater => ⟨hlater, by simp⟩

/-- A replay that comes to its end has taken every update id of the log. -/
theorem confined_recoverFromOpLog {items : List (LogEntry V Row × Plan)}
    (hitems : ∀ item ∈ items, Replayable P k item.1.record)
    (hdirect : ∀ j < 2 ^ 63, k.taken j) :
    Confined P .other (recoverFromOpLog items) (fun ok k' => (∀ i, k.taken i → k'.taken i) ∧
      (ok = true → ∀ item ∈ items, item.1.record.Inserts →
        k'.taken item.1.record.internalId)) k := by
  induction items generalizing k with
  | nil => exact ⟨fun _ htaken => htaken, fun _ => List.forall_mem_nil _⟩
  | cons item items ih =>
      obtain ⟨entry, plan⟩ := item
      obtain ⟨hfirst, hrest⟩ := List.forall_mem_cons.mp hitems
      apply Safe.bind
      apply (confined_replayRecord hfirst hdirect plan).mono
      rintro ok k' ⟨hgrows, htaken⟩
      cases ok with
      | false => exact ⟨hgrows.taken, by rintro ⟨⟩⟩
      | true =>
          have hlater := ih (fun item hitem => (hrest item hitem).grows hgrows)
            fun j hj => hgrows.taken j (hdirect j hj)
          refine hlater.mono ?_
          rintro ok later ⟨hgrown, hall⟩
          refine ⟨fun i hi => hgrown i (hgrows.taken i hi), fun hok => ?_⟩
          exact List.forall_mem_cons.mpr
            ⟨fun hinserts => hgrown _ (htaken hinserts), hall hok⟩

end Confined

/-! A call supplies what is derived from it -/

theorem PublicCall.confined {calls : List (PublicCall V Row)} {call : PublicCall V Row}
    (hcall : call ∈ calls) (hids : ∀ r ∈ call.ids, r ≤ kMaxRealId) :
    Confined (Derived calls) call.role call.program (fun _ _ => True) Holdings.direct := by
  have hsmall : ∀ r ∈ call.ids, r < 2 ^ 63 := fun r hr => (le_kMaxRealId_iff r).mp (hids r hr)
  match call with
  | .change (.write (.upsert kind write)) =>
      have hr : write.r < 2 ^ 63 := hsmall write.r List.mem_cons_self
      apply Safe.bind
      have hself : Holdings.direct.owned write.r write.r := ⟨rfl, hr⟩
      exact (confined_writeDense hr (fun row hrow => .written kind write row hcall hrow) 2 kind
        hself).mono fun _ _ _ => trivial
  | .change (.write (.delete r)) =>
      apply Safe.bind
      exact (confined_deleteDense (hsmall r List.mem_cons_self)).mono fun _ _ _ => trivial
  | .change (.rows (.one call)) =>
      apply ConfinedOn.ofProg
      apply Safe.bind
      apply (confinedOn_payload (hsmall call.r List.mem_cons_self) ?_ ?_ ?_).mono
      · exact fun _ _ _ => trivial
      · rintro r row rfl
        exact .set r row hcall
      · rintro r patch existing rfl hexisting
        exact .patched r patch existing hcall hexisting
      · rintro r erase existing row rfl hexisting hrow
        exact .erased r erase existing row hcall hexisting hrow
  | .change (.rows (.batch items)) =>
      apply ConfinedOn.ofProg
      apply Safe.bind
      apply (confinedOn_setPayloadBatch fun item hitem => ?_).mono
      · exact fun _ _ _ => trivial
      · exact ⟨hsmall item.1 (List.mem_map_of_mem hitem),
          .listed items item.1 item.2 hcall hitem⟩
  | .getPayload r =>
      apply ConfinedOn.ofProg
      apply Safe.bind
      exact (confinedOn_getPayloadDense (hsmall r List.mem_cons_self)).mono
        fun _ _ _ => trivial
  | .search s => exact (confinedOn_search s).ofProg

end AsterVec.Dense

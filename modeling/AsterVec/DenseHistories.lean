import AsterVec.DensePayload
import AsterVec.DenseThreads
import Mathlib.Data.Set.Finite.Basic

/-!
Calls one after another.  Between two calls every slice is idle, and the layer-0 edges
lead to nodes that have a vector.
-/

namespace AsterVec.Dense

open AsterVec.IdTypes
open AsterVec.Programs
open Prog

variable {V Row α : Type}

/-- No call is under way. -/
structure Quiet (owner : Nat → Option Nat) (st : State V Row) : Prop where
  good : Good owner st
  inv : ∀ r < 2 ^ 63, (sliceOf r owner st).Inv r
  idle : ∀ r < 2 ^ 63, (sliceOf r owner st).Idle r
  mapped : ∀ r i, st.tables.updatedRealToInternal.lookup r = some i → r < 2 ^ 63

theorem quiet_empty : Quiet (fun _ => none) (State.empty V Row) :=
  let hsound : (Machine.empty V Row).Sound := Machine.sound_empty
  ⟨hsound.good, hsound.inv, fun r hr => hsound.idle r hr rfl, fun r _ h => by
    rw [show (State.empty V Row).tables.updatedRealToInternal.lookup r = none from
      AList.lookup_empty r] at h
    cases h⟩

/-- Only real ids are mapped. -/
theorem mapped_exec {st : State V Row} {r : Nat} (hr : r < 2 ^ 63) {c : Call V Row}
    {s : Slice V Row} (hallowed : Slice.Allowed r c s)
    (hmapped : ∀ r i, st.tables.updatedRealToInternal.lookup r = some i → r < 2 ^ 63) :
    ∀ r i, (exec c st).2.tables.updatedRealToInternal.lookup r = some i → r < 2 ^ 63 := by
  intro x i hlookup
  cases c with
  | recordUpdateMapping r' i' =>
      obtain ⟨rfl, -⟩ := hallowed
      change (st.tables.recordUpdateMapping r' i').updatedRealToInternal.lookup x = _
        at hlookup
      rw [(st.tables.recordUpdateMapping_maps r' i').1] at hlookup
      rcases eq_or_ne x r' with rfl | hne
      · exact hr
      · rw [AList.lookup_insert_ne hne] at hlookup
        exact hmapped x i hlookup
  | forgetUpdateMapping r' =>
      change (st.tables.forgetUpdateMapping r').updatedRealToInternal.lookup x = _
        at hlookup
      rw [(forgetUpdateMapping_maps st.tables r').1] at hlookup
      split at hlookup
      · cases hlookup
      · exact hmapped x i hlookup
  | _ => exact hmapped x i hlookup

/-- A call that is safe for its id leaves the store quiet, and the slices of other ids as
they were. -/
theorem Quiet.run_slices {owner : Nat → Option Nat} {st : State V Row}
    (hquiet : Quiet owner st) {r : Nat} (hr : r < 2 ^ 63) {p : Prog V Row α}
    {Post : α → Slice V Row → Prop}
    (hsafe : SafeWrite r p (fun value s => s.Idle r ∧ Post value s) (sliceOf r owner st)) :
    ∃ owner', Quiet owner' (p.run exec st).2 ∧
      Post (p.run exec st).1 (sliceOf r owner' (p.run exec st).2) ∧
      ∀ x < 2 ^ 63, x ≠ r → sliceOf x owner' (p.run exec st).2 = sliceOf x owner st := by
  obtain ⟨hgood, hinv, hidle, hmapped⟩ := hquiet
  replace hidle : ∀ x < 2 ^ 63, x ≠ r → (sliceOf x owner st).Idle x :=
    fun x hx _ => hidle x hx
  induction p generalizing owner st with
  | done value =>
      refine ⟨owner, ⟨hgood, hinv, fun x hx => ?_, hmapped⟩, hsafe.2, fun _ _ _ => rfl⟩
      rcases eq_or_ne x r with rfl | hne
      · exact hsafe.1
      · exact hidle x hx hne
  | call c next ih =>
      obtain ⟨-, hallowed, hnext⟩ := hsafe
      have hown := sliceOf_step hgood hr hallowed
      have hother : ∀ x < 2 ^ 63, x ≠ r →
          sliceOf x (ownerAfter r c (exec c st).1 owner) (exec c st).2 =
            sliceOf x owner st :=
        fun x hx hne => sliceOf_other hgood hr hx hne (hinv r hr) hallowed
      obtain ⟨owner', hquiet', hpost, hsame⟩ :=
        ih _ (hnext _ _ hown) (good_exec hgood hr (hinv r hr) hallowed) (fun x hx => by
          rcases eq_or_ne x r with rfl | hne
          · exact (hinv x hx).step hallowed hown
          · rw [hother x hx hne]
            exact hinv x hx) (mapped_exec hr hallowed hmapped) (fun x hx hne => by
          rw [hother x hx hne]
          exact hidle x hx hne)
      exact ⟨owner', hquiet', hpost,
        fun x hx hne => (hsame x hx hne).trans (hother x hx hne)⟩

theorem Quiet.run {owner : Nat → Option Nat} {st : State V Row} (hquiet : Quiet owner st)
    {r : Nat} (hr : r < 2 ^ 63) {p : Prog V Row α}
    (hsafe : SafeWrite r p (fun _ s => s.Idle r) (sliceOf r owner st)) :
    ∃ owner', Quiet owner' (p.run exec st).2 := by
  have hsafe' : SafeWrite r p (fun _ s => s.Idle r ∧ True) (sliceOf r owner st) :=
    hsafe.mono fun _ _ hidle => ⟨hidle, trivial⟩
  obtain ⟨owner', hquiet', -, -⟩ := hquiet.run_slices hr hsafe'
  exact ⟨owner', hquiet'⟩

/-! Links -/

/-- The node has a vector. -/
def Located (st : State V Row) (i : Nat) : Prop := (st.vectors i).isSome = true

structure Linked (st : State V Row) : Prop where
  finite : {i | Located st i}.Finite
  edges : ∀ i, ∀ j ∈ st.edges i, Located st j
  entry : ∀ i, st.entryPoint = some i → Located st i

/-- Links are made between nodes that have a vector. -/
def Linkable : Call V Row → State V Row → Prop
  | .addEdges i neighbors, st => Located st i ∧ ∀ n ∈ neighbors, Located st n
  | .casEntryPoint i, st | .promote i, st => Located st i
  | _, _ => True

/-- Vectors and the entry point stay. -/
structure Grows (st st' : State V Row) : Prop where
  located : ∀ i, Located st i → Located st' i
  entry : st.entryPoint ≠ none → st'.entryPoint ≠ none

/-- A store without an entry point has no vectors. -/
def Rooted (st : State V Row) : Prop := st.entryPoint = none → ∀ i, ¬Located st i

/-- The call stores no vector and links nothing. -/
def Free : Call V Row → Prop
  | .storeVector _ _ | .addEdges _ _ | .casEntryPoint _ | .promote _ => False
  | _ => True

theorem linked_empty : Linked (State.empty V Row) where
  finite := by simp [Located, State.empty]
  edges := by simp [State.empty]
  entry := by simp [State.empty]

theorem grows_exec (c : Call V Row) (st : State V Row) : Grows st (exec c st).2 := by
  refine ⟨fun i hlocated => ?_, fun hentry => ?_⟩
  · cases c with
    | storeVector j vector =>
        change (Function.update st.vectors j (some vector) i).isSome = true
        rw [Function.update_apply]
        split
        · rfl
        · exact hlocated
    | _ => exact hlocated
  · cases c with
    | casEntryPoint j =>
        change some (st.entryPoint.getD j) ≠ none
        simp
    | promote j =>
        change some j ≠ none
        simp
    | _ => exact hentry

theorem rooted_exec {c : Call V Row} (hfree : Free c) {st : State V Row}
    (hrooted : Rooted st) : Rooted (exec c st).2 := by
  cases c with
  | storeVector | addEdges | casEntryPoint | promote => exact hfree.elim
  | _ => exact hrooted

theorem mem_addEdge {edges : Nat → List Nat} {a b i j : Nat}
    (hmem : j ∈ addEdge edges a b i) : j ∈ edges i ∨ j = b := by
  unfold addEdge at hmem
  rw [Function.update_apply] at hmem
  split at hmem
  · rename_i heq
    subst heq
    rcases List.mem_append.mp hmem with hold | hnew
    · exact .inl hold
    · exact .inr (List.mem_singleton.mp hnew)
  · exact .inl hmem

theorem mem_deleteEdge {edges : Nat → List Nat} {a b i j : Nat}
    (hmem : j ∈ deleteEdge edges a b i) : j ∈ edges i := by
  unfold deleteEdge at hmem
  rw [Function.update_apply] at hmem
  split at hmem
  · rename_i heq
    subst heq
    exact List.mem_of_mem_filter hmem
  · exact hmem

theorem mem_addEdges {neighbors : List Nat} {edges : Nat → List Nat} {a i j : Nat}
    (hmem : j ∈ neighbors.foldl (fun edges n => addEdge (addEdge edges a n) n a) edges i) :
    j ∈ edges i ∨ j = a ∨ j ∈ neighbors := by
  induction neighbors generalizing edges with
  | nil => exact .inl hmem
  | cons n neighbors ih =>
      rcases ih hmem with hold | hnew | hlater
      · rcases mem_addEdge hold with hold | rfl
        · rcases mem_addEdge hold with hold | rfl
          · exact .inl hold
          · exact .inr (.inr List.mem_cons_self)
        · exact .inr (.inl rfl)
      · exact .inr (.inl hnew)
      · exact .inr (.inr (List.mem_cons_of_mem _ hlater))

theorem mem_deleteEdges {pairs : List (Nat × Nat)} {edges : Nat → List Nat} {i j : Nat}
    (hmem : j ∈ pairs.foldl (fun edges pair =>
      deleteEdge (deleteEdge edges pair.1 pair.2) pair.2 pair.1) edges i) : j ∈ edges i := by
  induction pairs generalizing edges with
  | nil => exact hmem
  | cons pair pairs ih => exact mem_deleteEdge (mem_deleteEdge (ih hmem))

theorem Linked.call {c : Call V Row} {st : State V Row} (hlinked : Linked st)
    (hlinkable : Linkable c st) : Linked (exec c st).2 := by
  cases c with
  | storeVector j vector =>
      refine ⟨?_, fun i k hk => (grows_exec _ st).located k (hlinked.edges i k hk),
        fun i hi => (grows_exec _ st).located i (hlinked.entry i hi)⟩
      apply (hlinked.finite.insert j).subset
      intro i hi
      rcases eq_or_ne i j with rfl | hne
      · exact Set.mem_insert _ _
      · refine Set.mem_insert_of_mem _ ?_
        change (Function.update st.vectors j (some vector) i).isSome = true at hi
        rw [Function.update_of_ne hne] at hi
        exact hi
  | addEdges i neighbors =>
      obtain ⟨hi, hneighbors⟩ := hlinkable
      refine ⟨hlinked.finite, fun x j hj => ?_, hlinked.entry⟩
      rcases mem_addEdges hj with hold | rfl | hnew
      · exact hlinked.edges x j hold
      · exact hi
      · exact hneighbors j hnew
  | deleteEdges pairs =>
      exact ⟨hlinked.finite, fun x j hj => hlinked.edges x j (mem_deleteEdges hj),
        hlinked.entry⟩
  | casEntryPoint i =>
      refine ⟨hlinked.finite, hlinked.edges, fun j hj => ?_⟩
      change some (st.entryPoint.getD i) = some j at hj
      cases hentry : st.entryPoint with
      | none =>
          rw [hentry] at hj
          cases hj
          exact hlinkable
      | some e =>
          rw [hentry] at hj
          cases hj
          exact hlinked.entry _ hentry
  | promote i =>
      refine ⟨hlinked.finite, hlinked.edges, ?_⟩
      rintro _ ⟨⟩
      exact hlinkable
  | _ => exact ⟨hlinked.finite, hlinked.edges, hlinked.entry⟩

/-- Calls of one program, made on the whole state. -/
def linker (V Row : Type) : Handler (Call V Row) Reply (State V Row) :=
  ⟨Linkable, fun c st reply st' => reply = (exec c st).1 ∧ st' = (exec c st).2⟩

abbrev Links (p : Prog V Row α) (Post : α → State V Row → Prop) (st : State V Row) : Prop :=
  Safe (linker V Row) (fun _ => True) p Post st

theorem links_post {p : Prog V Row α} {Post : α → State V Row → Prop} {st : State V Row}
    (hlinks : Links p Post st) : Post (p.run exec st).1 (p.run exec st).2 := by
  induction p generalizing st with
  | done value => exact hlinks
  | call c next ih => exact ih _ (hlinks.2.2 _ _ ⟨rfl, rfl⟩)

theorem Linked.run {p : Prog V Row α} {Post : α → State V Row → Prop} {st : State V Row}
    (hlinked : Linked st) (hlinks : Links p Post st) : Linked (p.run exec st).2 := by
  induction p generalizing st with
  | done value => exact hlinked
  | call c next ih =>
      obtain ⟨-, hlinkable, hnext⟩ := hlinks
      exact ih _ (hlinked.call hlinkable) (hnext _ _ ⟨rfl, rfl⟩)

section Links

variable {st : State V Row}

theorem links_call {c : Call V Row} {follow : Reply c → Prog V Row α}
    {Post : α → State V Row → Prop} (hlinkable : Linkable c st)
    (hnext : Links (follow (exec c st).1) Post (exec c st).2) :
    Links (perform c >>= follow) Post st := by
  refine ⟨trivial, hlinkable, ?_⟩
  rintro _ _ ⟨rfl, rfl⟩
  exact hnext

/-- The nodes of `known` have their vectors, and others only with an entry point. -/
structure Known (known : List Nat) (st : State V Row) : Prop where
  located : ∀ i ∈ known, Located st i
  rooted : Rooted st

def Keeps (known : List Nat) : α → State V Row → Prop := fun _ st => Known known st

variable {known : List Nat}

/-- A call that links nothing. -/
theorem links_free {c : Call V Row} {follow : Reply c → Prog V Row α} (hfree : Free c)
    (hknown : Known known st)
    (hnext : ∀ reply st', Known known st' → Links (follow reply) (Keeps known) st') :
    Links (perform c >>= follow) (Keeps known) st := by
  refine ⟨trivial, ?_, ?_⟩
  · cases c with
    | addEdges | casEntryPoint | promote => exact hfree.elim
    | _ => trivial
  · rintro _ _ ⟨rfl, rfl⟩
    exact hnext _ _ ⟨fun i hi => (grows_exec c st).located i (hknown.located i hi),
      rooted_exec hfree hknown.rooted⟩

theorem links_done {value : α} (hknown : Known known st) :
    Links (pure value : Prog V Row α) (Keeps known) st := hknown

theorem links_isAlive (r : Nat) (hknown : Known known st) :
    Links (isAlive r : Prog V Row Bool) (Keeps known) st := by
  refine links_free (by trivial) hknown ?_
  intro i st hknown
  refine links_free (by trivial) hknown ?_
  intro dead st hknown
  cases dead with
  | true => exact links_done hknown
  | false =>
      exact links_free (by trivial) hknown fun _ _ hknown => links_done hknown

theorem links_linkNode {nodeId : Nat} {plan : Plan} (hnode : nodeId ∈ known)
    (hselected : ∀ n ∈ plan.selected, n ∈ known) (hknown : Known known st) :
    Links (linkNode nodeId plan : Prog V Row Unit) (Keeps known) st := by
  unfold linkNode
  refine links_call (c := .addEdges nodeId plan.selected)
    ⟨hknown.located nodeId hnode, fun n hn => hknown.located n (hselected n hn)⟩ ?_
  replace hknown : Known known (exec (.addEdges nodeId plan.selected) st).2 :=
    ⟨hknown.located, hknown.rooted⟩
  generalize (exec (.addEdges nodeId plan.selected) st).2 = st at hknown ⊢
  apply Safe.bind
  have hupper : Links (bif plan.upper then linkUpper nodeId else pure () : Prog V Row Unit)
      (Keeps known) st := by
    cases plan.upper with
    | true => exact links_free (by trivial) hknown fun _ _ hknown => links_done hknown
    | false => exact links_done hknown
  apply hupper.mono
  intro _ st hknown
  refine links_free (by trivial) hknown ?_
  intro _ st hknown
  cases plan.promoted with
  | true =>
      apply links_call (c := .promote nodeId) (hknown.located nodeId hnode)
      refine ⟨hknown.located, ?_⟩
      rintro ⟨⟩
  | false => exact links_done hknown

theorem links_insertNode {nodeId : Nat} {vector : V} {plan : Plan}
    (hselected : ∀ n ∈ plan.selected, n ∈ known) (hknown : Known known st) :
    Links (insertNode nodeId vector plan : Prog V Row Unit) (Keeps known) st := by
  have hstored : ∀ i ∈ nodeId :: known,
      Located (exec (.storeVector nodeId vector) st).2 i := by
    intro i hi
    rcases List.mem_cons.mp hi with rfl | hi
    · change (Function.update st.vectors i (some vector) i).isSome = true
      rw [Function.update_self]
      rfl
    · exact (grows_exec _ st).located i (hknown.located i hi)
  have hlink : ∀ st : State V Row, Known (nodeId :: known) st →
      Links (linkNode nodeId plan : Prog V Row Unit) (Keeps known) st := by
    intro st hknown
    have hnode : Links (linkNode nodeId plan : Prog V Row Unit) (Keeps (nodeId :: known))
        st := links_linkNode List.mem_cons_self
      (fun n hn => List.mem_cons_of_mem _ (hselected n hn)) hknown
    exact hnode.mono fun _ _ hkept =>
      ⟨fun i hi => hkept.located i (List.mem_cons_of_mem _ hi), hkept.rooted⟩
  unfold insertNode
  apply links_call (c := .loadEntryPoint) trivial
  cases hentry : st.entryPoint with
  | none =>
      rw [show (exec .loadEntryPoint st).1 = none from hentry]
      apply links_call (c := .storeVector nodeId vector) trivial
      apply links_call (c := .casEntryPoint nodeId) (hstored nodeId List.mem_cons_self)
      -- The node is the entry point now.
      have hfirst : (exec (.casEntryPoint nodeId)
          (exec (.storeVector nodeId vector) st).2).1 = true := by
        change st.entryPoint.isNone = true
        rw [hentry]
        rfl
      rw [hfirst]
      exact ⟨fun i hi => hstored i (List.mem_cons_of_mem _ hi), by rintro ⟨⟩⟩
  | some e =>
      rw [show (exec .loadEntryPoint st).1 = some e from hentry]
      apply links_call (c := .storeVector nodeId vector) trivial
      refine hlink _ ⟨hstored, fun hnone => ?_⟩
      change st.entryPoint = none at hnone
      rw [hentry] at hnone
      cases hnone

theorem links_putMetadata (i : Nat) (metadata : Option Row)
    (hknown : Known known st) :
    Links (putMetadata i metadata : Prog V Row Unit) (Keeps known) st := by
  cases metadata with
  | some row =>
      exact links_free (c := .putRow i row) (by trivial) hknown fun _ _ hknown =>
        links_done hknown
  | none => exact links_done hknown

theorem links_migrateMetadata (oldInternal newInternal : Nat) (metadata : Option Row)
    (hknown : Known known st) :
    Links (migrateMetadata oldInternal newInternal metadata : Prog V Row Unit)
      (Keeps known) st := by
  cases metadata with
  | some row => exact links_putMetadata newInternal (some row) hknown
  | none =>
      exact links_free (by trivial) hknown fun row _ hknown =>
        links_putMetadata newInternal row hknown

theorem links_insertDead {write : Write V Row}
    (hselected : ∀ n ∈ write.plan.selected, n ∈ known)
    (hknown : Known known st) :
    Links (insertDead write : Prog V Row Unit) (Keeps known) st := by
  unfold insertDead
  refine links_free (by trivial) hknown ?_
  intro reinsert st hknown
  have hinsert : ∀ (i : Nat) (st : State V Row), Known known st →
      Links (do
        insertNode i write.vector write.plan
        putMetadata i write.metadata : Prog V Row Unit) (Keeps known) st := by
    intro i st hknown
    apply Safe.bind
    apply (links_insertNode hselected hknown).mono
    intro _ st hknown
    exact links_putMetadata i write.metadata hknown
  cases reinsert with
  | true =>
      refine links_free (by trivial) hknown ?_
      intro i st hknown
      refine links_free (by trivial) hknown ?_
      intro _ st hknown
      exact hinsert i st hknown
  | false => exact hinsert write.r st hknown

theorem links_updateAlive {write : Write V Row}
    (hselected : ∀ n ∈ write.plan.selected, n ∈ known)
    (hknown : Known known st) :
    Links (updateAlive write : Prog V Row Unit) (Keeps known) st := by
  unfold updateAlive
  refine links_free (by trivial) hknown ?_
  intro oldInternal st hknown
  refine links_free (by trivial) hknown ?_
  intro newInternal st hknown
  apply Safe.bind
  apply (links_insertNode hselected hknown).mono
  intro _ st hknown
  refine links_free (by trivial) hknown ?_
  intro _ st hknown
  refine links_free (by trivial) hknown ?_
  intro _ st hknown
  apply Safe.bind
  apply (links_migrateMetadata oldInternal newInternal write.metadata hknown).mono
  intro _ st hknown
  exact links_free (c := .deleteRow oldInternal) (by trivial) hknown
    fun _ _ hknown => links_done hknown

theorem links_writeDense (fuel : Nat) (kind : Kind) {write : Write V Row}
    (hselected : ∀ n ∈ write.plan.selected, n ∈ known)
    (hknown : Known known st) :
    Links (writeDense fuel kind write : Prog V Row Bool) (Keeps known) st := by
  induction fuel generalizing kind st with
  | zero => exact links_done hknown
  | succ fuel ih =>
      cases kind with
      | insert =>
          apply Safe.bind
          apply (links_isAlive write.r hknown).mono
          intro alive st hknown
          cases alive with
          | true => exact ih .update hknown
          | false =>
              apply Safe.bind
              exact (links_insertDead hselected hknown).mono fun _ _ hknown =>
                links_done hknown
      | update =>
          apply Safe.bind
          apply (links_isAlive write.r hknown).mono
          intro alive st hknown
          cases alive with
          | true =>
              apply Safe.bind
              exact (links_updateAlive hselected hknown).mono fun _ _ hknown =>
                links_done hknown
          | false => exact ih .insert hknown

theorem links_deleteDense (r : Nat) (hknown : Known known st) :
    Links (deleteDense r : Prog V Row Bool) (Keeps known) st := by
  apply Safe.bind
  apply (links_isAlive r hknown).mono
  intro _ st hknown
  refine links_free (by trivial) hknown ?_
  intro i st hknown
  refine links_free (by trivial) hknown ?_
  intro present st hknown
  cases present with
  | false => exact links_done hknown
  | true =>
      refine links_free (by trivial) hknown ?_
      intro _ st hknown
      refine links_free (by trivial) hknown ?_
      intro _ st hknown
      exact links_free (c := .forgetUpdateMapping r) (by trivial) hknown
        fun _ _ hknown => links_done hknown

theorem links_payload (call : PayloadCall Row) (hknown : Known known st) :
    Links (call.program : Prog V Row Bool) (Keeps known) st := by
  have hput : ∀ (i : Nat) (row : Row) (st : State V Row),
      Known known st →
      Links (do putRow i row; pure true : Prog V Row Bool) (Keeps known) st :=
    fun i row st hknown => links_free (c := .putRow i row) (by trivial) hknown
      fun _ _ hknown => links_done hknown
  cases call with
  | set r row =>
      apply Safe.bind
      apply (links_isAlive r hknown).mono
      intro alive st hknown
      cases alive with
      | false => exact links_done hknown
      | true =>
          refine links_free (by trivial) hknown ?_
          intro i st hknown
          exact hput i row st hknown
  | update r patch =>
      apply Safe.bind
      apply (links_isAlive r hknown).mono
      intro alive st hknown
      cases alive with
      | false => exact links_done hknown
      | true =>
          refine links_free (by trivial) hknown ?_
          intro i st hknown
          refine links_free (by trivial) hknown ?_
          intro existing st hknown
          exact hput i (patch existing) st hknown
  | deleteKeys r erase =>
      refine links_free (by trivial) hknown ?_
      intro i st hknown
      refine links_free (by trivial) hknown ?_
      intro existing st hknown
      cases Option.bind existing erase with
      | none => exact links_done hknown
      | some row => exact hput i row st hknown

end Links

end AsterVec.Dense

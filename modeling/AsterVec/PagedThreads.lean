import AsterVec.PagedStores
import Mathlib.Logic.Relation

/-!
Stores by several threads.  A call of `storeEncoded` is a chain of steps, each of
which runs under one lock; between them any other thread may take a step of its
own.
-/

namespace AsterVec.PagedVectorStorage

open AsterVec.IdTypes

variable {cfg : Config}

/-- The arguments of one call of `storeEncoded`. -/
structure Request (cfg : Config) where
  id : Nat
  record : Record cfg
  sectionKey : Nat

/-- How far a call has come.  From `fresh` on it owns a slot. -/
inductive Stage
  | called
  | grown
  | located (page : Nat)
  | overwriting (page slot : Nat)
  | overwritten (page slot : Nat)
  | refreshed (page slot : Nat)
  | unlocated
  | sectioned (sectionIdx : Int)
  | pageless (sectionIdx : Int)
  | fresh (sectionIdx : Int) (page : Nat)
  | granted (sectionIdx : Int) (page slot : Nat)
  | refused (page slot : Nat)
  | written (page slot : Nat)
  | cached (page slot : Nat)
  | undeleted (page slot : Nat)
  | returned (page slot : Nat)
  | threw
  | undefined
  deriving DecidableEq

namespace Store

/-- The next lock-protected step of a call, `none` once it is over. -/
def storeStep (request : Request cfg) : Stage → Store cfg → Option (Stage × Store cfg)
  | .called, st =>
      match st.ensureDenseCapacity request.id with
      | (.returned (), st) => some (.grown, st)
      | (.threw, st) => some (.threw, st)
      | (.undefined, st) => some (.undefined, st)
  | .grown, st =>
      match st.pageOf request.id with
      | none => some (.undefined, st)
      | some (.ofNat page) => some (.located page, st)
      | some (.negSucc _) => some (.unlocated, st)
  | .located page, st =>
      match st.slotOf request.id with
      | none => some (.undefined, st)
      | some slot => some (.overwriting page slot, st)
  | .overwriting page slot, st =>
      some (.overwritten page slot, writeRecord page slot request.record st)
  | .overwritten page slot, st =>
      some (.refreshed page slot, updateCacheAfterWrite page slot request.record st)
  | .refreshed page slot, st =>
      some (.returned page slot, st.markDeletedAt request.id false)
  | .unlocated, st =>
      match lookupSection request.sectionKey st with
      | none => some (.threw, st)
      | some (sectionIdx, st) => some (.sectioned sectionIdx, st)
  | .sectioned sectionIdx, st =>
      match takeSectionSlot sectionIdx st with
      | (some (page, slot), st) => some (.granted sectionIdx page slot, st)
      | (none, st) => some (.pageless sectionIdx, st)
  | .pageless sectionIdx, st =>
      match appendPage sectionIdx st with
      | none => some (.threw, st)
      | some (page, st) => some (.fresh sectionIdx page, st)
  | .fresh sectionIdx page, st =>
      some (.granted sectionIdx page 0, publishOpenPage sectionIdx page st)
  | .granted sectionIdx page slot, st =>
      if sectionIdx < 0 then
        some (.written page slot, writeRecord page slot request.record st)
      else
        match writeToSectionBufferLocked sectionIdx page slot request.record st with
        | none => some (.undefined, st)
        | some (true, st) => some (.written page slot, st)
        | some (false, st) => some (.refused page slot, st)
  | .refused page slot, st =>
      some (.written page slot, writeRecord page slot request.record st)
  | .written page slot, st =>
      some (.cached page slot, updateCacheAfterWrite page slot request.record st)
  | .cached page slot, st =>
      some (.undeleted page slot, st.markDeletedAt request.id false)
  | .undeleted page slot, st =>
      match st.assignLocation request.id page slot with
      | (.returned (), st) => some (.returned page slot, st)
      | (.threw, st) => some (.threw, st)
      | (.undefined, st) => some (.undefined, st)
  | .returned _ _, _ => none
  | .threw, _ => none
  | .undefined, _ => none

end Store

namespace Stage

/-- The outcome of a call that is over. -/
def outcome : Stage → Option (Outcome Unit)
  | .returned _ _ => some (.returned ())
  | .threw => some .threw
  | .undefined => some .undefined
  | _ => none

/-- The slot a call owns. -/
def slot : Stage → Option (Nat × Nat)
  | .fresh _ page => some (page, 0)
  | .granted _ page slot => some (page, slot)
  | .refused page slot => some (page, slot)
  | .written page slot => some (page, slot)
  | .cached page slot => some (page, slot)
  | .undeleted page slot => some (page, slot)
  | .returned page slot => some (page, slot)
  | _ => none

/-- The slot of a call whose record has found its way: it went into the section
buffer or was refused by it. -/
def settled : Stage → Option (Nat × Nat)
  | .refused page slot => some (page, slot)
  | .written page slot => some (page, slot)
  | .cached page slot => some (page, slot)
  | .undeleted page slot => some (page, slot)
  | .returned page slot => some (page, slot)
  | _ => none

end Stage

namespace Store

/-! One thread alone -/

/-- One step of a call, with nothing in between. -/
def Steps (request : Request cfg) (before after : Stage × Store cfg) : Prop :=
  storeStep request before.1 before.2 = some after

theorem steps_finish (request : Request cfg) (page slot : Nat) (st : Store cfg) :
    ∃ stage, stage.outcome =
        some ((st.markDeletedAt request.id false).assignLocation request.id page slot).1 ∧
      Relation.ReflTransGen (Steps request) (.cached page slot, st)
        (stage,
          ((st.markDeletedAt request.id false).assignLocation request.id page slot).2) := by
  have hmark : Steps request (.cached page slot, st)
      (.undeleted page slot, st.markDeletedAt request.id false) := rfl
  cases hassign : (st.markDeletedAt request.id false).assignLocation request.id page slot with
  | mk outcome assigned =>
      have hstep : ∀ stage, storeStep request (.undeleted page slot)
          (st.markDeletedAt request.id false) = some (stage, assigned) →
          Relation.ReflTransGen (Steps request) (.cached page slot, st)
            (stage, assigned) := fun stage hstep =>
        .tail (.single hmark) hstep
      cases outcome with
      | returned _ =>
          exact ⟨.returned page slot, rfl, hstep _ (by simp only [storeStep, hassign])⟩
      | threw => exact ⟨.threw, rfl, hstep _ (by simp only [storeStep, hassign])⟩
      | undefined => exact ⟨.undefined, rfl, hstep _ (by simp only [storeStep, hassign])⟩

/-- The steps that follow the grant of a slot. -/
theorem steps_granted (request : Request cfg) (sectionIdx : Int) (page slot : Nat)
    (st : Store cfg) :
    ∃ stage final, Relation.ReflTransGen (Steps request)
        (.granted sectionIdx page slot, st) (stage, final) ∧
      match writeNewRecord sectionIdx page slot request.record st with
      | none => stage = .undefined ∧ final = st
      | some st => stage = .cached page slot ∧ final = st := by
  have hrefresh : ∀ written, Steps request (.written page slot, written)
      (.cached page slot, updateCacheAfterWrite page slot request.record written) :=
    fun _ => rfl
  unfold writeNewRecord
  by_cases hneg : sectionIdx < 0
  · have hwritten : Steps request (.granted sectionIdx page slot, st)
        (.written page slot, writeRecord page slot request.record st) := by
      simp only [Steps, storeStep, if_pos hneg]
    rw [if_pos hneg]
    exact ⟨_, _, (Relation.ReflTransGen.single hwritten).tail (hrefresh _), rfl, rfl⟩
  · rw [if_neg hneg]
    cases hwrite : writeToSectionBufferLocked sectionIdx page slot request.record st with
    | none =>
        refine ⟨.undefined, st, .single ?_, rfl, rfl⟩
        simp only [Steps, storeStep, if_neg hneg, hwrite]
    | some taken =>
        obtain ⟨buffered, written⟩ := taken
        cases buffered with
        | true =>
            have hwritten : Steps request (.granted sectionIdx page slot, st)
                (.written page slot, written) := by
              simp only [Steps, storeStep, if_neg hneg, hwrite]
            exact ⟨_, _, (Relation.ReflTransGen.single hwritten).tail (hrefresh _),
              rfl, rfl⟩
        | false =>
            have hrefused : Steps request (.granted sectionIdx page slot, st)
                (.refused page slot, written) := by
              simp only [Steps, storeStep, if_neg hneg, hwrite]
            have hwritten : Steps request (.refused page slot, written)
                (.written page slot, writeRecord page slot request.record written) := rfl
            exact ⟨_, _, ((Relation.ReflTransGen.single hrefused).tail hwritten).tail
              (hrefresh _), rfl, rfl⟩

/-- The allocator's steps. -/
theorem steps_unlocated (request : Request cfg) (st : Store cfg) :
    match allocateSlotForSection request.sectionKey st with
    | (none, final) =>
        Relation.ReflTransGen (Steps request) (.unlocated, st) (.threw, final)
    | (some (sectionIdx, page, slot), final) =>
        Relation.ReflTransGen (Steps request) (.unlocated, st)
          (.granted sectionIdx page slot, final) := by
  unfold allocateSlotForSection
  cases hlookup : lookupSection request.sectionKey st with
  | none =>
      refine .single ?_
      simp only [Steps, storeStep, hlookup]
  | some entry =>
      obtain ⟨sectionIdx, found⟩ := entry
      have hfound : Steps request (.unlocated, st) (.sectioned sectionIdx, found) := by
        simp only [Steps, storeStep, hlookup]
      simp only
      cases htake : takeSectionSlot sectionIdx found with
      | mk taken next =>
          cases taken with
          | some slot =>
              refine .tail (.single hfound) ?_
              simp only [Steps, storeStep, htake]
          | none =>
              have hnext : Steps request (.sectioned sectionIdx, found)
                  (.pageless sectionIdx, next) := by
                simp only [Steps, storeStep, htake]
              simp only
              cases happend : appendPage sectionIdx next with
              | none =>
                  refine .tail (.tail (.single hfound) hnext) ?_
                  simp only [Steps, storeStep, happend]
              | some appended =>
                  obtain ⟨page, opened⟩ := appended
                  have hopened : Steps request (.pageless sectionIdx, next)
                      (.fresh sectionIdx page, opened) := by
                    simp only [Steps, storeStep, happend]
                  exact .tail (.tail (.tail (.single hfound) hnext) hopened) rfl

/-- A thread that is not interrupted computes `storeEncoded`. -/
theorem steps_storeEncoded (request : Request cfg) (st : Store cfg) :
    ∃ stage, stage.outcome =
        some (storeEncoded request.id request.record request.sectionKey st).1 ∧
      Relation.ReflTransGen (Steps request) (.called, st)
        (stage, (storeEncoded request.id request.record request.sectionKey st).2) := by
  unfold storeEncoded
  cases hensure : st.ensureDenseCapacity request.id with
  | mk outcome grown =>
      have hfirst : ∀ stage, storeStep request .called st = some (stage, grown) →
          Relation.ReflTransGen (Steps request) (.called, st) (stage, grown) :=
        fun _ hstep => .single hstep
      cases outcome with
      | undefined =>
          exact ⟨.undefined, rfl, hfirst _ (by simp only [storeStep, hensure])⟩
      | threw => exact ⟨.threw, rfl, hfirst _ (by simp only [storeStep, hensure])⟩
      | returned _ =>
          have hgrown := hfirst .grown (by simp only [storeStep, hensure])
          simp only
          cases hpage : grown.pageOf request.id with
          | none =>
              refine ⟨.undefined, rfl, hgrown.tail ?_⟩
              simp only [Steps, storeStep, hpage]
          | some page =>
              cases page with
              | ofNat page =>
                  have hlocated : Steps request (.grown, grown) (.located page, grown) := by
                    simp only [Steps, storeStep, hpage]
                  cases hslot : grown.slotOf request.id with
                  | none =>
                      refine ⟨.undefined, rfl, (hgrown.tail hlocated).tail ?_⟩
                      simp only [Steps, storeStep, hslot]
                  | some slot =>
                      have hoverwrite : Steps request (.located page, grown)
                          (.overwriting page slot, grown) := by
                        simp only [Steps, storeStep, hslot]
                      have hwrite : Steps request (.overwriting page slot, grown)
                          (.overwritten page slot,
                            writeRecord page slot request.record grown) := rfl
                      have hrefresh : Steps request (.overwritten page slot,
                            writeRecord page slot request.record grown)
                          (.refreshed page slot, updateCacheAfterWrite page slot
                            request.record (writeRecord page slot request.record grown)) :=
                        rfl
                      exact ⟨.returned page slot, rfl,
                        ((((hgrown.tail hlocated).tail hoverwrite).tail hwrite).tail
                          hrefresh).tail rfl⟩
              | negSucc n =>
                  have hunlocated : Steps request (.grown, grown) (.unlocated, grown) := by
                    simp only [Steps, storeStep, hpage]
                  have hallocate := steps_unlocated request grown
                  simp only
                  cases halloc : allocateSlotForSection request.sectionKey grown with
                  | mk granted allocated =>
                      rw [halloc] at hallocate
                      cases granted with
                      | none =>
                          exact ⟨.threw, rfl, (hgrown.tail hunlocated).trans hallocate⟩
                      | some entry =>
                          obtain ⟨sectionIdx, page, slot⟩ := entry
                          obtain ⟨stage, final, hgranted, hfinal⟩ :=
                            steps_granted request sectionIdx page slot allocated
                          have hrun :=
                            ((hgrown.tail hunlocated).trans hallocate).trans hgranted
                          simp only
                          cases hwrite : writeNewRecord sectionIdx page slot
                              request.record allocated with
                          | none =>
                              rw [hwrite] at hfinal
                              obtain ⟨rfl, rfl⟩ := hfinal
                              exact ⟨.undefined, rfl, hrun⟩
                          | some written =>
                              rw [hwrite] at hfinal
                              obtain ⟨rfl, rfl⟩ := hfinal
                              obtain ⟨stage, houtcome, hfinish⟩ :=
                                steps_finish request page slot final
                              exact ⟨stage, houtcome, hrun.trans hfinish⟩

/-! Several threads -/

/-- Runs of any number of calls, in any order of their steps, whose steps all
satisfy `Allowed` in the state they are taken in. -/
inductive Interleaves {ι : Type} [DecidableEq ι] (requests : ι → Request cfg)
    (Allowed : ι → (ι → Stage) → Store cfg → Prop) (start : Store cfg) :
    (ι → Stage) → Store cfg → Prop
  | start : Interleaves requests Allowed start (fun _ => .called) start
  | step {stages : ι → Stage} {st st' : Store cfg} {stage : Stage} (i : ι)
      (hrun : Interleaves requests Allowed start stages st)
      (hallowed : Allowed i stages st)
      (hstep : storeStep (requests i) (stages i) st = some (stage, st')) :
      Interleaves requests Allowed start (Function.update stages i stage) st'

/-- The run in which the threads step in the given order. -/
def schedule {ι : Type} [DecidableEq ι] (requests : ι → Request cfg) :
    List ι → (ι → Stage) → Store cfg → Option ((ι → Stage) × Store cfg)
  | [], stages, st => some (stages, st)
  | i :: rest, stages, st =>
      match storeStep (requests i) (stages i) st with
      | none => none
      | some (stage, st) => schedule requests rest (Function.update stages i stage) st

theorem interleaves_schedule {ι : Type} [DecidableEq ι] {requests : ι → Request cfg}
    {Allowed : ι → (ι → Stage) → Store cfg → Prop}
    (hallowed : ∀ i stages st, Allowed i stages st) {start : Store cfg} :
    ∀ {order : List ι} {stages later : ι → Stage} {st final : Store cfg},
      Interleaves requests Allowed start stages st →
      schedule requests order stages st = some (later, final) →
      Interleaves requests Allowed start later final := by
  intro order
  induction order with
  | nil =>
      intro stages later st final hrun hschedule
      cases hschedule
      exact hrun
  | cons i rest ih =>
      intro stages later st final hrun hschedule
      unfold schedule at hschedule
      split at hschedule
      · cases hschedule
      · rename_i hstep
        exact ih (hrun.step i (hallowed i stages st) hstep) hschedule

/-- The next step of a call starts a zero-filled buffer over `page`. -/
def StartsBuffer (stage : Stage) (st : Store cfg) (page : Nat) : Prop :=
  ∃ sectionIdx, stage = .granted sectionIdx page 0 ∧ 0 ≤ sectionIdx ∧
    st.holdsPage sectionIdx page = false

/-- The step of thread `i` does not start a zero-filled buffer over a page to
which another record has found its way. -/
def SafeStart {ι : Type} (i : ι) (stages : ι → Stage) (st : Store cfg) : Prop :=
  ∀ page, StartsBuffer (stages i) st page →
    ∀ j, j ≠ i → ∀ slot, (stages j).settled ≠ some (page, slot)

end Store

end AsterVec.PagedVectorStorage

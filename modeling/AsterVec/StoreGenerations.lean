import AsterVec.StoreOpening

/-!
A store directory over its whole life: opens with and without reinit, checkpoints,
damage to the metadata, and kills between any two calls.
-/

namespace AsterVec.StoreFiles

open AsterVec.Programs

variable {Index : Type}

/-- What the process is doing. -/
inductive Proc (Index : Type) where
  | stopped
  | opening (rest : Prog Index (Option (Opened Index)))
  | running (opened : Opened Index)
  | checkpointing (opened : Opened Index) (rest : Prog Index Unit)

structure Machine (Index : Type) where
  disk : Disk Index
  proc : Proc Index

/-- One step.  Writes change the index a checkpoint is taken of; `.prev` can be a link
to the newest metadata file and is damaged with it. -/
inductive Step (emptyIndex : Index) : Machine Index → Machine Index → Prop
  | opens (d : Disk Index) (reinit : Bool) (defaultEncoding : Nat) :
      Step emptyIndex ⟨d, .stopped⟩ ⟨d, .opening (openStore emptyIndex reinit defaultEncoding)⟩
  | openCalls (d : Disk Index) (c : Call Index) (next) :
      Step emptyIndex ⟨d, .opening (.call c next)⟩
        ⟨(exec c d).2, .opening (next (exec c d).1)⟩
  | opened (d : Disk Index) (opened : Opened Index) :
      Step emptyIndex ⟨d, .opening (.done (some opened))⟩ ⟨d, .running opened⟩
  | checkpoints (d : Disk Index) (opened : Opened Index) (index : Index) :
      Step emptyIndex ⟨d, .running opened⟩
        ⟨d, .checkpointing opened (writeMetadataFile ⟨opened.files, index⟩)⟩
  | checkpointCalls (d : Disk Index) (opened : Opened Index) (c : Call Index) (next) :
      Step emptyIndex ⟨d, .checkpointing opened (.call c next)⟩
        ⟨(exec c d).2, .checkpointing opened (next (exec c d).1)⟩
  | checkpointed (d : Disk Index) (opened : Opened Index) :
      Step emptyIndex ⟨d, .checkpointing opened (.done ())⟩ ⟨d, .running opened⟩
  | damagesStopped (d : Disk Index) (name : MetaName) (file : MetaFile Index)
      (damage : Damage) (hname : name = .main ∨ name = .prev)
      (hfile : d.metadata name = some file) (hdamage : damage ≠ .none) :
      Step emptyIndex ⟨d, .stopped⟩
        ⟨d.setMetadata name (some { file with damage := damage }), .stopped⟩
  | damagesRunning (d : Disk Index) (opened : Opened Index) (name : MetaName)
      (file : MetaFile Index) (damage : Damage) (hname : name = .main ∨ name = .prev)
      (hfile : d.metadata name = some file) (hdamage : damage ≠ .none) :
      Step emptyIndex ⟨d, .running opened⟩
        ⟨d.setMetadata name (some { file with damage := damage }), .running opened⟩
  | stops (d : Disk Index) (proc : Proc Index) : Step emptyIndex ⟨d, proc⟩ ⟨d, .stopped⟩

def start (Index : Type) : Machine Index := ⟨.empty Index, .stopped⟩

def Reachable (emptyIndex : Index) (m : Machine Index) : Prop :=
  Relation.ReflTransGen (Step emptyIndex) (start Index) m

/-- A step after which no process has the directory open does not leave it exposed. -/
def CleanStep (emptyIndex : Index) (m m' : Machine Index) : Prop :=
  Step emptyIndex m m' ∧ (m'.proc = .stopped → ¬ m'.disk.Exposed)

def CleanlyReachable (emptyIndex : Index) (m : Machine Index) : Prop :=
  Relation.ReflTransGen (CleanStep emptyIndex) (start Index) m

/-- An open store presents nothing, or one checkpoint with the files it was written
for. -/
def Unmixed (m : Machine Index) : Prop :=
  ∀ opened, m.proc = .running opened →
    m.disk.graph = some opened.files.graph ∧
    m.disk.vectorFile = some opened.files.vectorFile ∧
    ∀ checkpoint, opened.loaded = some checkpoint →
      checkpoint.files = opened.files ∧ checkpoint ∈ m.disk.taken

/-- The invariant, by what the process is doing. -/
def Inv (m : Machine Index) : Prop :=
  match m.proc with
  | .stopped => ∃ files, m.disk.Resting files
  | .opening rest => Safe (directory Index) Disk.Stops rest Opens m.disk
  | .running opened => opened.Consistent m.disk
  | .checkpointing opened rest =>
      Safe (directory Index) Disk.Stops rest (fun _ d => opened.Consistent d) m.disk

namespace Disk

variable {d : Disk Index} {files : Files} {name : MetaName} {file : MetaFile Index}
  {damage : Damage}

/-- Damage leaves what a file was written for. -/
theorem damaged (hfile : d.metadata name = some file) {name' : MetaName}
    {found : MetaFile Index}
    (hfound : (d.setMetadata name (some { file with damage := damage })).metadata name' =
      some found) :
    ∃ file', d.metadata name' = some file' ∧ file'.checkpoint = found.checkpoint := by
  rcases eq_or_ne name' name with rfl | hne
  · rw [d.setMetadata_self] at hfound
    cases hfound
    exact ⟨file, hfile, rfl⟩
  · rw [d.setMetadata_of_ne _ _ hne] at hfound
    exact ⟨found, hfound, rfl⟩

theorem Sound.damages (hsound : d.Sound) (hfile : d.metadata name = some file)
    (hdamage : damage ≠ .none) :
    (d.setMetadata name (some { file with damage := damage })).Sound where
  taken := by
    intro name' checkpoint h
    rcases eq_or_ne name' name with rfl | hne
    · rw [d.setMetadata_self] at h
      cases h
      exact absurd rfl hdamage
    · rw [d.setMetadata_of_ne _ _ hne] at h
      exact hsound.taken name' checkpoint h
  older := by
    intro name' found h
    obtain ⟨file', hfile', hsame⟩ := damaged hfile h
    rw [← hsame]
    exact hsound.older name' file' hfile'
  graph := hsound.graph

theorem Serving.damages (hserving : d.Serving files) (hfile : d.metadata name = some file)
    (hdamage : damage ≠ .none) :
    (d.setMetadata name (some { file with damage := damage })).Serving files where
  sound := hserving.sound.damages hfile hdamage
  graph := hserving.graph
  vectorFile := hserving.vectorFile
  main := by
    intro found h
    obtain ⟨file', hfile', hsame⟩ := damaged hfile h
    rw [← hsame]
    exact hserving.main file' hfile'
  prev := by
    intro found h
    obtain ⟨file', hfile', hsame⟩ := damaged hfile h
    rw [← hsame]
    exact hserving.prev file' hfile'
  outdated := by
    intro found h
    obtain ⟨file', hfile', hsame⟩ := damaged hfile h
    rw [← hsame]
    exact hserving.outdated file' hfile'

theorem Resting.damages (hresting : d.Resting files) (hfile : d.metadata name = some file)
    (hname : name = .main ∨ name = .prev) (hdamage : damage ≠ .none) :
    (d.setMetadata name (some { file with damage := damage })).Resting files := by
  have hback : (d.setMetadata name (some { file with damage := damage })).metadata
      .reinitBak = d.metadata .reinitBak := by
    apply d.setMetadata_of_ne
    rcases hname with rfl | rfl <;> rintro ⟨⟩
  have hnone : (d.setMetadata name (some { file with damage := damage })).metadata .main =
      none ↔ d.metadata .main = none := by
    rcases eq_or_ne name .main with rfl | hne
    · rw [d.setMetadata_self, hfile]
      constructor <;> rintro ⟨⟩
    · rw [d.setMetadata_of_ne _ _ hne.symm]
  have hkept : ∀ {name' : MetaName} {found : MetaFile Index},
      (∀ file, d.metadata name' = some file →
        file.checkpoint.files = files ∧ d.Fits file) →
      (d.setMetadata name (some { file with damage := damage })).metadata name' =
        some found → found.checkpoint.files = files ∧ d.Fits found := by
    intro name' found hall h
    obtain ⟨file', hfile', hsame⟩ := damaged hfile h
    have hfit := hall file' hfile'
    unfold Fits at hfit ⊢
    rw [hsame] at hfit
    exact hfit
  refine ⟨hresting.sound.damages hfile hdamage, fun found h => hkept hresting.main h,
    fun found h => hkept hresting.prev h, fun hgone found h => ?_, fun hthere found h => ?_⟩
  · exact hresting.backup (hnone.mp hgone) found (hback ▸ h)
  · exact hresting.outdated (fun h => hthere (hnone.mpr h)) found (hback ▸ h)

end Disk

theorem Safe.stops_of {α : Type} {p : Prog Index α} {Post : α → Disk Index → Prop}
    {d : Disk Index} (hsafe : Safe (directory Index) Disk.Stops p Post d)
    (hpost : ∀ value d, Post value d → d.Stops) : d.Stops := by
  cases p with
  | done value => exact hpost value d hsafe
  | call c next => exact hsafe.1

/-- Wherever the process is, it may stop unless the directory is exposed. -/
theorem Inv.stops {m : Machine Index} (hinv : Inv m) : m.disk.Stops := by
  obtain ⟨d, proc⟩ := m
  cases proc with
  | stopped => exact fun _ => hinv
  | opening rest => exact Safe.stops_of hinv fun _ _ hopens => hopens.1
  | running opened => exact hinv.serving.stops
  | checkpointing opened rest =>
      exact Safe.stops_of hinv fun _ _ hconsistent => hconsistent.serving.stops

theorem Inv.step {emptyIndex : Index} {m m' : Machine Index} (hinv : Inv m)
    (hstep : CleanStep emptyIndex m m') : Inv m' := by
  obtain ⟨hstep, hclean⟩ := hstep
  cases hstep with
  | opens d reinit defaultEncoding =>
      obtain ⟨files, hresting⟩ := hinv
      exact safe_openStore emptyIndex reinit defaultEncoding hresting
  | openCalls d c next => exact hinv.2.2 _ _ rfl
  | opened d opened => exact hinv.2 opened rfl
  | checkpoints d opened index =>
      apply (safe_writeMetadataFile ⟨opened.files, index⟩
        hinv.serving).mono
      rintro _ d' ⟨hserving, htaken⟩
      refine ⟨hserving, fun checkpoint hloaded => ?_⟩
      obtain ⟨hfor, hmem⟩ := hinv.loaded checkpoint hloaded
      exact ⟨hfor, htaken ▸ List.mem_cons_of_mem _ hmem⟩
  | checkpointCalls d opened c next => exact hinv.2.2 _ _ rfl
  | checkpointed d opened => exact hinv
  | damagesStopped d name file damage hname hfile hdamage =>
      obtain ⟨files, hresting⟩ := hinv
      exact ⟨files, hresting.damages hfile hname hdamage⟩
  | damagesRunning d opened name file damage hname hfile hdamage =>
      exact ⟨hinv.serving.damages hfile hdamage, hinv.loaded⟩
  | stops d proc => exact hinv.stops (hclean rfl)

theorem inv_start : Inv (start Index) := by
  refine ⟨⟨0, 0, 0⟩, ⟨?_, ?_, ?_⟩, ?_, ?_, ?_, ?_⟩
  · rintro _ _ ⟨⟩
  · rintro _ _ ⟨⟩
  · rintro _ ⟨⟩
  · rintro _ ⟨⟩
  · rintro _ ⟨⟩
  · rintro _ _ ⟨⟩
  · rintro _ _ ⟨⟩

/-- When no process stops over an outdated backup without metadata, no open mixes two
generations of the store. -/
theorem CleanlyReachable.unmixed {emptyIndex : Index} {m : Machine Index}
    (hreachable : CleanlyReachable emptyIndex m) : Unmixed m := by
  have hinv : Inv m := by
    induction hreachable with
    | refl => exact inv_start
    | tail _ hstep ih => exact ih.step hstep
  obtain ⟨d, proc⟩ := m
  rintro opened rfl
  exact ⟨hinv.serving.graph, hinv.serving.vectorFile, hinv.loaded⟩

/-! Runs of programs -/

section Runs

variable {emptyIndex : Index} {d : Disk Index}

theorem steps_of_clean {m m' : Machine Index}
    (hsteps : Relation.ReflTransGen (CleanStep emptyIndex) m m') :
    Relation.ReflTransGen (Step emptyIndex) m m' :=
  Relation.ReflTransGen.mono (fun _ _ hstep => hstep.1) _ _ hsteps

/-- An open runs for a while. -/
theorem cleanSteps_advance (n : Nat) (rest : Prog Index (Option (Opened Index))) :
    Relation.ReflTransGen (CleanStep emptyIndex) ⟨d, .opening rest⟩
      ⟨(rest.advance exec n d).2, .opening (rest.advance exec n d).1⟩ := by
  induction n generalizing rest d with
  | zero => exact .refl
  | succ n ih =>
      cases rest with
      | done value => exact .refl
      | call c next => exact .head ⟨.openCalls d c next, by rintro ⟨⟩⟩ (ih _)

/-- An open runs to its end. -/
theorem cleanSteps_run (rest : Prog Index (Option (Opened Index))) :
    Relation.ReflTransGen (CleanStep emptyIndex) ⟨d, .opening rest⟩
      ⟨(rest.run exec d).2, .opening (.done (rest.run exec d).1)⟩ := by
  induction rest generalizing d with
  | done value => exact .refl
  | call c next ih => exact .head ⟨.openCalls d c next, by rintro ⟨⟩⟩ (ih _)

/-- A checkpoint runs to its end. -/
theorem cleanSteps_checkpoint (opened : Opened Index) (rest : Prog Index Unit) :
    Relation.ReflTransGen (CleanStep emptyIndex) ⟨d, .checkpointing opened rest⟩
      ⟨(rest.run exec d).2, .running opened⟩ := by
  induction rest generalizing d with
  | done value => exact .single ⟨.checkpointed d opened, by rintro ⟨⟩⟩
  | call c next ih => exact .head ⟨.checkpointCalls d opened c next, by rintro ⟨⟩⟩ (ih _)

theorem CleanlyReachable.opens (hreachable : CleanlyReachable emptyIndex ⟨d, .stopped⟩)
    {reinit : Bool} {defaultEncoding : Nat} {opened : Opened Index}
    (hopened : ((openStore emptyIndex reinit defaultEncoding).run exec d).1 = some opened) :
    CleanlyReachable emptyIndex
      ⟨((openStore emptyIndex reinit defaultEncoding).run exec d).2, .running opened⟩ := by
  refine ((hreachable.tail ⟨.opens d reinit defaultEncoding, by rintro ⟨⟩⟩).trans
    (cleanSteps_run _)).tail ?_
  rw [hopened]
  exact ⟨.opened _ opened, by rintro ⟨⟩⟩

theorem CleanlyReachable.checkpoint {opened : Opened Index}
    (hreachable : CleanlyReachable emptyIndex ⟨d, .running opened⟩) (index : Index) :
    CleanlyReachable emptyIndex
      ⟨((writeMetadataFile ⟨opened.files, index⟩).run exec d).2, .running opened⟩ :=
  (hreachable.tail ⟨.checkpoints d opened index, by rintro ⟨⟩⟩).trans
    (cleanSteps_checkpoint _ _)

end Runs

/-! A store with one checkpoint, opened again -/

def firstFiles : Files := ⟨0, 1, 2⟩

/-- A new store with varint adjacency, and its checkpoint. -/
def checkpointed : Disk Nat :=
  ((writeMetadataFile ⟨firstFiles, 7⟩).run exec
    ((openStore 0 false 2).run exec (.empty Nat)).2).2

theorem cleanlyReachable_checkpointed :
    CleanlyReachable 0 ⟨checkpointed, .stopped⟩ := by
  have hcreated : CleanlyReachable 0
      ⟨((openStore 0 false 2).run exec (.empty Nat)).2, .running ⟨none, firstFiles⟩⟩ :=
    CleanlyReachable.opens .refl (by decide +kernel)
  refine (hcreated.checkpoint 7).tail ⟨.stops _ _, fun _ => ?_⟩
  rintro ⟨hgone, -⟩
  have hthere : (checkpointed.metadata .main).isSome = true := by decide +kernel
  rw [show checkpointed.metadata .main = none from hgone] at hthere
  cases hthere

theorem checkpointed_unmixed :
    ((openStore 0 false 5).run exec checkpointed).1 =
        some ⟨some ⟨firstFiles, 7⟩, firstFiles⟩ ∧
      Unmixed ⟨((openStore 0 false 5).run exec checkpointed).2,
        .running ⟨some ⟨firstFiles, 7⟩, firstFiles⟩⟩ := by
  have hopened : ((openStore 0 false 5).run exec checkpointed).1 =
      some ⟨some ⟨firstFiles, 7⟩, firstFiles⟩ := by decide +kernel
  exact ⟨hopened, (cleanlyReachable_checkpointed.opens hopened).unmixed⟩

/-- The store after an open with reinit was killed behind the new graph. -/
def killedReinit : Disk Nat :=
  ((openStore 0 true 2).advance exec 8 checkpointed).2

/-- The backup is restored over the graph that replaced its own. -/
theorem killedReinit_mixes :
    ∃ m : Machine Nat, Reachable 0 m ∧
      m.proc = .running ⟨some ⟨firstFiles, 7⟩, ⟨2, 1, 2⟩⟩ ∧ ¬ Unmixed m := by
  have hopened : ((openStore 0 false 2).run exec killedReinit).1 =
      some ⟨some ⟨firstFiles, 7⟩, ⟨2, 1, 2⟩⟩ := by decide +kernel
  have hkilled : Reachable 0 ⟨killedReinit, .stopped⟩ := by
    have hbegun : Reachable 0 ⟨checkpointed, .opening (openStore 0 true 2)⟩ :=
      (steps_of_clean cleanlyReachable_checkpointed).tail (.opens checkpointed true 2)
    have hrun : Relation.ReflTransGen (Step 0)
        ⟨checkpointed, .opening (openStore 0 true 2)⟩
        ⟨killedReinit, .opening ((openStore 0 true 2).advance exec 8 checkpointed).1⟩ :=
      steps_of_clean (cleanSteps_advance 8 _)
    exact (hbegun.trans hrun).tail (.stops killedReinit _)
  have hrun : Relation.ReflTransGen (Step 0)
      ⟨killedReinit, .opening (openStore 0 false 2)⟩
      ⟨((openStore 0 false 2).run exec killedReinit).2,
        .opening (.done ((openStore 0 false 2).run exec killedReinit).1)⟩ :=
    steps_of_clean (cleanSteps_run _)
  refine ⟨⟨((openStore 0 false 2).run exec killedReinit).2,
    .running ⟨some ⟨firstFiles, 7⟩, ⟨2, 1, 2⟩⟩⟩, ?_, rfl, ?_⟩
  · refine Relation.ReflTransGen.tail ((hkilled.tail (.opens killedReinit false 2)).trans
      hrun) ?_
    rw [hopened]
    exact .opened _ _
  · intro hunmixed
    have hsame := ((hunmixed _ rfl).2.2 _ rfl).1
    cases hsame

end AsterVec.StoreFiles

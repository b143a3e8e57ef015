import AsterVec.StoreFiles

/-!
What an open and a checkpoint keep of a store directory: the metadata files it could
load were written for the graph and the vector file that are there.
-/

namespace AsterVec.StoreFiles

open AsterVec.Programs

variable {Index : Type}

/-- Calls are always answered, as `exec` says. -/
def directory (Index : Type) :
    Handler (Call Index) (@Reply Index) (Disk Index) where
  Allowed _ _ := True
  Step c d reply d' := exec c d = (reply, d')

namespace Disk

/-- The metadata file was written for the graph and the vector file that are there. -/
def Fits (d : Disk Index) (file : MetaFile Index) : Prop :=
  d.graph = some file.checkpoint.files.graph ∧
    d.vectorFile = some file.checkpoint.files.vectorFile

/-- There is no metadata, and a backup of it that is older than the graph or the vector
file. -/
def Exposed (d : Disk Index) : Prop :=
  d.metadata .main = none ∧ ∃ file, d.metadata .reinitBak = some file ∧ ¬ d.Fits file

/-- What every call keeps. -/
structure Sound (d : Disk Index) : Prop where
  taken : ∀ name checkpoint, d.metadata name = some ⟨checkpoint, .none⟩ →
    checkpoint ∈ d.taken
  older : ∀ name file, d.metadata name = some file →
    file.checkpoint.files.graph < d.nextFile
  graph : ∀ graph, d.graph = some graph → graph < d.nextFile

/-- A directory no process has open. -/
structure Resting (files : Files) (d : Disk Index) : Prop where
  sound : d.Sound
  main : ∀ file, d.metadata .main = some file → file.checkpoint.files = files ∧ d.Fits file
  prev : ∀ file, d.metadata .prev = some file → file.checkpoint.files = files ∧ d.Fits file
  backup : d.metadata .main = none → ∀ file, d.metadata .reinitBak = some file →
    file.checkpoint.files = files ∧ d.Fits file
  outdated : d.metadata .main ≠ none → ∀ file, d.metadata .reinitBak = some file →
    d.graph ≠ some file.checkpoint.files.graph

/-- A directory whose files a process has open. -/
structure Serving (files : Files) (d : Disk Index) : Prop where
  sound : d.Sound
  graph : d.graph = some files.graph
  vectorFile : d.vectorFile = some files.vectorFile
  main : ∀ file, d.metadata .main = some file → file.checkpoint.files = files
  prev : ∀ file, d.metadata .prev = some file → file.checkpoint.files = files
  outdated : ∀ file, d.metadata .reinitBak = some file →
    file.checkpoint.files.graph ≠ files.graph

/-- Where a process may stop. -/
def Stops (d : Disk Index) : Prop := ¬ d.Exposed → ∃ files, d.Resting files

variable {d : Disk Index} {files : Files}

theorem Resting.stops (hresting : d.Resting files) : d.Stops := fun _ => ⟨files, hresting⟩

theorem Serving.fits (hserving : d.Serving files) {file : MetaFile Index}
    (hfile : file.checkpoint.files = files) : d.Fits file := by
  unfold Fits
  rw [hfile]
  exact ⟨hserving.graph, hserving.vectorFile⟩

theorem Serving.stops (hserving : d.Serving files) : d.Stops := by
  intro hexposed
  refine ⟨files, hserving.sound, ?_, ?_, ?_, ?_⟩
  · exact fun file hfile => ⟨hserving.main file hfile, hserving.fits (hserving.main file hfile)⟩
  · exact fun file hfile => ⟨hserving.prev file hfile, hserving.fits (hserving.prev file hfile)⟩
  · intro hmain file hfile
    exfalso
    apply hexposed
    refine ⟨hmain, file, hfile, fun hfits => ?_⟩
    have hgraph := hfits.1
    rw [hserving.graph] at hgraph
    exact hserving.outdated file hfile (Option.some.inj hgraph).symm
  · intro _ file hfile hgraph
    rw [hserving.graph] at hgraph
    exact hserving.outdated file hfile (Option.some.inj hgraph).symm

/-- Without `.prev`, only a backup that fits matters. -/
theorem Sound.stops (hsound : d.Sound) (hmain : d.metadata .main = none)
    (hprev : d.metadata .prev = none) : d.Stops := by
  intro hexposed
  have hfits : ∀ file, d.metadata .reinitBak = some file → d.Fits file := by
    intro file hfile
    by_contra hunfit
    exact hexposed ⟨hmain, file, hfile, hunfit⟩
  have hnoMain : ∀ file, d.metadata .main ≠ some file := by
    rw [hmain]
    rintro _ ⟨⟩
  have hnoPrev : ∀ file, d.metadata .prev ≠ some file := by
    rw [hprev]
    rintro _ ⟨⟩
  cases hbackup : d.metadata .reinitBak with
  | none =>
      refine ⟨⟨0, 0, 0⟩, hsound, fun file h => absurd h (hnoMain file),
        fun file h => absurd h (hnoPrev file), fun _ file h => ?_,
        fun h => absurd hmain h⟩
      rw [hbackup] at h
      cases h
  | some backup =>
      refine ⟨backup.checkpoint.files, hsound, fun file h => absurd h (hnoMain file),
        fun file h => absurd h (hnoPrev file), fun _ file h => ?_,
        fun h => absurd hmain h⟩
      rw [hbackup] at h
      cases h
      exact ⟨rfl, hfits backup hbackup⟩

end Disk

/-- The rule of one call of a program. -/
theorem safe_does {α : Type} {c : Call Index} {follow : Reply c → Prog Index α}
    {Post : α → Disk Index → Prop} {d : Disk Index} (hstops : d.Stops)
    (hnext : Safe (directory Index) Disk.Stops (follow (exec c d).1) Post (exec c d).2) :
    Safe (directory Index) Disk.Stops (does c >>= follow) Post d := by
  apply Safe.perform hstops trivial
  intro reply d' hstep
  change exec c d = (reply, d') at hstep
  rw [hstep] at hnext
  exact hnext

/-- The rule of a call at the end of a program. -/
theorem safe_last {c : Call Index} {Post : Reply c → Disk Index → Prop} {d : Disk Index}
    (hstops : d.Stops) (hpost : Post (exec c d).1 (exec c d).2) :
    Safe (directory Index) Disk.Stops (does c) Post d := by
  rw [← Program.bind_pure (does c)]
  exact safe_does hstops hpost

namespace Disk.Sound

variable {d : Disk Index}

/-- Copies and removals of metadata files. -/
theorem setMetadata (hsound : d.Sound) (name : MetaName) {file : Option (MetaFile Index)}
    (hfile : file = none ∨ ∃ source, d.metadata source = file) :
    (d.setMetadata name file).Sound := by
  have hfrom : ∀ name' file', (d.setMetadata name file).metadata name' = some file' →
      ∃ source, d.metadata source = some file' := by
    intro name' file' h
    change Function.update d.metadata name file name' = some file' at h
    rcases eq_or_ne name' name with rfl | hne
    · rw [Function.update_self] at h
      rcases hfile with rfl | ⟨source, hsource⟩
      · cases h
      · exact ⟨source, hsource.trans h⟩
    · rw [Function.update_of_ne hne] at h
      exact ⟨name', h⟩
  constructor
  · intro name' checkpoint h
    obtain ⟨source, hsource⟩ := hfrom name' _ h
    exact hsound.taken source checkpoint hsource
  · intro name' file' h
    obtain ⟨source, hsource⟩ := hfrom name' _ h
    exact hsound.older source file' hsource
  · exact hsound.graph

theorem rename (hsound : d.Sound) (source target : MetaName) :
    (exec (.rename source target) d).2.Sound :=
  (hsound.setMetadata target (.inr ⟨source, rfl⟩)).setMetadata source (.inl rfl)

theorem serializeMetadata (hsound : d.Sound) {checkpoint : Checkpoint Index}
    (holder : checkpoint.files.graph < d.nextFile) (all : Bool) :
    (exec (.serializeMetadata checkpoint all) d).2.Sound := by
  cases all with
  | false =>
      refine ⟨fun name found h => ?_, fun name file h => ?_, hsound.graph⟩
      · change Function.update d.metadata .tmp _ name = _ at h
        rcases eq_or_ne name .tmp with rfl | hne
        · rw [Function.update_self] at h
          cases h
        · rw [Function.update_of_ne hne] at h
          exact hsound.taken name found h
      · change Function.update d.metadata .tmp _ name = _ at h
        rcases eq_or_ne name .tmp with rfl | hne
        · rw [Function.update_self] at h
          cases h
          exact holder
        · rw [Function.update_of_ne hne] at h
          exact hsound.older name file h
  | true =>
      refine ⟨fun name found h => ?_, fun name file h => ?_, hsound.graph⟩
      · change Function.update d.metadata .tmp _ name = _ at h
        rcases eq_or_ne name .tmp with rfl | hne
        · rw [Function.update_self] at h
          cases h
          exact List.mem_cons_self
        · rw [Function.update_of_ne hne] at h
          exact List.mem_cons_of_mem _ (hsound.taken name found h)
      · change Function.update d.metadata .tmp _ name = _ at h
        rcases eq_or_ne name .tmp with rfl | hne
        · rw [Function.update_self] at h
          cases h
          exact holder
        · rw [Function.update_of_ne hne] at h
          exact hsound.older name file h

end Disk.Sound

/-! A checkpoint -/

namespace Disk.Serving

variable {d d' : Disk Index} {files : Files}

/-- Only the metadata files that an open reads matter, and what they were written for. -/
theorem congr (hserving : d.Serving files) (hsound : d'.Sound) (hgraph : d'.graph = d.graph)
    (hvectorFile : d'.vectorFile = d.vectorFile)
    (hmain : ∀ file, d'.metadata .main = some file →
      file.checkpoint.files = files ∨ d.metadata .main = some file)
    (hprev : ∀ file, d'.metadata .prev = some file →
      d.metadata .prev = some file ∨ d.metadata .main = some file)
    (hbackup : ∀ file, d'.metadata .reinitBak = some file →
      d.metadata .reinitBak = some file) :
    d'.Serving files where
  sound := hsound
  graph := hgraph.trans hserving.graph
  vectorFile := hvectorFile.trans hserving.vectorFile
  main := fun file hfile => (hmain file hfile).elim id (hserving.main file)
  prev := fun file hfile => (hprev file hfile).elim (hserving.prev file) (hserving.main file)
  outdated := fun file hfile => hserving.outdated file (hbackup file hfile)

theorem serializeMetadata (hserving : d.Serving files) {checkpoint : Checkpoint Index}
    (hfor : checkpoint.files = files) (all : Bool) :
    (exec (.serializeMetadata checkpoint all) d).2.Serving files := by
  have holder : checkpoint.files.graph < d.nextFile :=
    hserving.sound.graph _ (by rw [hserving.graph, hfor])
  have hsound := hserving.sound.serializeMetadata holder all
  cases all with
  | false =>
      exact hserving.congr hsound rfl rfl (fun _ h => .inr h) (fun _ h => .inl h)
        fun _ h => h
  | true =>
      exact hserving.congr hsound rfl rfl (fun _ h => .inr h) (fun _ h => .inl h)
        fun _ h => h

theorem remove (hserving : d.Serving files) (name : MetaName) :
    (exec (.remove name) d).2.Serving files := by
  have hkept : ∀ name' file, (d.setMetadata name none).metadata name' = some file →
      d.metadata name' = some file := by
    intro name' file h
    rcases eq_or_ne name' name with rfl | hne
    · rw [d.setMetadata_self] at h
      cases h
    · rwa [d.setMetadata_of_ne _ _ hne] at h
  exact hserving.congr (hserving.sound.setMetadata name (.inl rfl)) rfl rfl
    (fun file h => .inr (hkept _ file h)) (fun file h => .inl (hkept _ file h))
    fun file h => hkept _ file h

theorem link (hserving : d.Serving files) :
    (exec (.link .main .prev) d).2.Serving files := by
  refine hserving.congr (hserving.sound.setMetadata .prev (.inr ⟨.main, rfl⟩)) rfl rfl
    (fun file h => .inr h) (fun file h => .inr ?_) fun file h => h
  change (d.setMetadata .prev (d.metadata .main)).metadata .prev = some file at h
  rwa [d.setMetadata_self] at h

/-- The new checkpoint takes the place of the newest one. -/
theorem install (hserving : d.Serving files) {checkpoint : Checkpoint Index}
    (hfor : checkpoint.files = files) (htmp : d.metadata .tmp = some ⟨checkpoint, .none⟩) :
    (exec (.rename .tmp .main) d).2.Serving files := by
  refine hserving.congr (hserving.sound.rename .tmp .main) rfl rfl (fun file h => .inl ?_)
    (fun file h => .inl h) fun file h => h
  change d.metadata .tmp = some file at h
  rw [htmp] at h
  cases h
  exact hfor

end Disk.Serving

/-- Writing a checkpoint keeps the files a process has open its own. -/
theorem safe_writeMetadataFile {d : Disk Index} (checkpoint : Checkpoint Index)
    (hserving : d.Serving checkpoint.files) :
    Safe (directory Index) Disk.Stops (writeMetadataFile checkpoint)
      (fun _ d' => d'.Serving checkpoint.files ∧ d'.taken = checkpoint :: d.taken) d := by
  unfold writeMetadataFile
  apply safe_does hserving.stops
  have htorn := hserving.serializeMetadata rfl false
  apply safe_does htorn.stops
  have hwritten := htorn.serializeMetadata rfl true
  apply safe_does hwritten.stops
  split
  · apply safe_does hwritten.stops
    have hremoved := hwritten.remove .prev
    apply safe_does hremoved.stops
    have hlinked := hremoved.link
    exact safe_last hlinked.stops ⟨hlinked.install rfl rfl, rfl⟩
  · exact safe_last hwritten.stops ⟨hwritten.install rfl rfl, rfl⟩

/-! The answers about a metadata file -/

theorem peek_eq_ok {file : Option (MetaFile Index)} {encoding : Nat}
    (hpeek : peek file = .ok encoding) :
    ∃ found, file = some found ∧ encoding = found.checkpoint.files.encoding := by
  cases file with
  | none => cases hpeek
  | some found =>
      obtain ⟨checkpoint, damage⟩ := found
      cases damage with
      | none | body =>
          cases hpeek
          exact ⟨_, rfl, rfl⟩
      | header => cases hpeek

theorem peek_eq_notFound {file : Option (MetaFile Index)} (hpeek : peek file = .notFound) :
    file = none := by
  cases file with
  | none => rfl
  | some found =>
      obtain ⟨checkpoint, damage⟩ := found
      cases damage <;> cases hpeek

theorem deserialize_eq_some {file : Option (MetaFile Index)} {checkpoint : Checkpoint Index}
    (hread : deserialize file = some checkpoint) : file = some ⟨checkpoint, .none⟩ := by
  cases file with
  | none => cases hread
  | some found =>
      obtain ⟨checkpoint, damage⟩ := found
      cases damage with
      | none =>
          cases hread
          rfl
      | body | header => cases hread

/-- A file whose header is damaged cannot be loaded. -/
theorem deserialize_eq_none {file : Option (MetaFile Index)}
    (hpeek : ∀ encoding, peek file ≠ .ok encoding) : deserialize file = none := by
  cases file with
  | none => rfl
  | some found =>
      obtain ⟨checkpoint, damage⟩ := found
      cases damage with
      | none => exact absurd rfl (hpeek checkpoint.files.encoding)
      | body | header => rfl

/-! An open -/

namespace Disk

variable {d d' : Disk Index} {files : Files}

theorem Resting.congr (hresting : d.Resting files) (hsound : d'.Sound)
    (hgraph : d'.graph = d.graph) (hvectorFile : d'.vectorFile = d.vectorFile)
    (hmetadata : ∀ name, name ≠ .tmp → d'.metadata name = d.metadata name) :
    d'.Resting files := by
  have hfits : ∀ file, d.Fits file → d'.Fits file := by
    rintro file ⟨hg, hv⟩
    exact ⟨hgraph.trans hg, hvectorFile.trans hv⟩
  have hmain := hmetadata .main (by decide)
  have hprev := hmetadata .prev (by decide)
  have hbackup := hmetadata .reinitBak (by decide)
  refine ⟨hsound, ?_, ?_, ?_, ?_⟩
  · intro file hfile
    obtain ⟨hfor, hfit⟩ := hresting.main file (hmain ▸ hfile)
    exact ⟨hfor, hfits file hfit⟩
  · intro file hfile
    obtain ⟨hfor, hfit⟩ := hresting.prev file (hprev ▸ hfile)
    exact ⟨hfor, hfits file hfit⟩
  · intro hnone file hfile
    obtain ⟨hfor, hfit⟩ := hresting.backup (hmain ▸ hnone) file (hbackup ▸ hfile)
    exact ⟨hfor, hfits file hfit⟩
  · intro hsome file hfile
    rw [hgraph]
    exact hresting.outdated (hmain ▸ hsome) file (hbackup ▸ hfile)

theorem Resting.removeTmp (hresting : d.Resting files) :
    (exec (.remove .tmp) d).2.Resting files :=
  hresting.congr (hresting.sound.setMetadata .tmp (.inl rfl)) rfl rfl
    fun _ hname => d.setMetadata_of_ne _ _ hname

theorem Resting.writeMarker (hresting : d.Resting files) (content : Option Nat) :
    (exec (.writeMarker content) d).2.Resting files :=
  hresting.congr ⟨hresting.sound.taken, hresting.sound.older, hresting.sound.graph⟩ rfl rfl
    fun _ _ => rfl

/-- Dropping the backup of a store that has its metadata. -/
theorem Resting.removeBackup (hresting : d.Resting files) :
    (exec (.remove .reinitBak) d).2.Resting files where
  sound := hresting.sound.setMetadata .reinitBak (.inl rfl)
  main := hresting.main
  prev := hresting.prev
  backup := by
    intro _ file hfile
    change (d.setMetadata .reinitBak none).metadata .reinitBak = some file at hfile
    rw [d.setMetadata_self] at hfile
    cases hfile
  outdated := by
    intro _ file hfile
    change (d.setMetadata .reinitBak none).metadata .reinitBak = some file at hfile
    rw [d.setMetadata_self] at hfile
    cases hfile

theorem Resting.removePrev (hresting : d.Resting files) :
    (exec (.remove .prev) d).2.Resting files where
  sound := hresting.sound.setMetadata .prev (.inl rfl)
  main := hresting.main
  prev := by
    intro file hfile
    change (d.setMetadata .prev none).metadata .prev = some file at hfile
    rw [d.setMetadata_self] at hfile
    cases hfile
  backup := hresting.backup
  outdated := hresting.outdated

/-- The metadata becomes the backup. -/
theorem Resting.stage (hresting : d.Resting files) :
    (exec (.rename .main .reinitBak) d).2.Resting files ∨
      d.metadata .main = none := by
  rcases hmain : d.metadata .main with _ | file
  · exact .inr rfl
  · refine .inl ⟨hresting.sound.rename .main .reinitBak, ?_, hresting.prev, ?_, ?_⟩
    · intro _ hfile
      change (none : Option (MetaFile Index)) = _ at hfile
      cases hfile
    · intro _ found hfile
      change d.metadata .main = some found at hfile
      exact hresting.main found hfile
    · exact fun hsome => absurd rfl hsome

/-- The backup becomes the metadata again. -/
theorem Resting.restore (hresting : d.Resting files) (hmain : d.metadata .main = none) :
    (exec (.rename .reinitBak .main) d).2.Resting files where
  sound := hresting.sound.rename .reinitBak .main
  main := fun file hfile => hresting.backup hmain file hfile
  prev := hresting.prev
  backup := by
    intro _ file hfile
    change (none : Option (MetaFile Index)) = _ at hfile
    cases hfile
  outdated := by
    intro _ file hfile
    change (none : Option (MetaFile Index)) = _ at hfile
    cases hfile

end Disk

/-- An open with reinit leaves no metadata but a backup. -/
theorem safe_stage_reinit {d : Disk Index} {files : Files} (hresting : d.Resting files) :
    Safe (directory Index) Disk.Stops (stageMetadata true)
      (fun _ d' => d'.Resting files ∧ d'.metadata .main = none) d := by
  unfold stageMetadata
  rw [if_pos rfl]
  apply safe_does hresting.stops
  split
  · rename_i hthere
    apply safe_does hresting.stops
    have hremoved := hresting.removeBackup
    rcases hremoved.stage with hstaged | hnone
    · exact safe_last hremoved.stops ⟨hstaged, rfl⟩
    · change d.metadata .main = none at hnone
      change (d.metadata .main).isSome = true at hthere
      rw [hnone] at hthere
      cases hthere
  · rename_i hgone
    refine ⟨hresting, ?_⟩
    exact Option.not_isSome_iff_eq_none.mp hgone

/-- After staging without reinit there is no backup that could be restored. -/
theorem safe_stage_keep {d : Disk Index} {files : Files} (hresting : d.Resting files) :
    Safe (directory Index) Disk.Stops (stageMetadata false)
      (fun _ d' => d'.Resting files ∧
        (d'.metadata .main = none → d'.metadata .reinitBak = none)) d := by
  unfold stageMetadata
  rw [if_neg Bool.false_ne_true]
  apply safe_does hresting.stops
  split
  · rename_i hthere
    refine ⟨hresting, fun hnone => ?_⟩
    change d.metadata .main = none at hnone
    change (d.metadata .main).isSome = true at hthere
    rw [hnone] at hthere
    cases hthere
  · rename_i hgone
    have hnone : d.metadata .main = none := Option.not_isSome_iff_eq_none.mp hgone
    apply safe_does hresting.stops
    split
    · exact safe_last hresting.stops ⟨hresting.restore hnone, fun _ => rfl⟩
    · rename_i hlost
      exact ⟨hresting, fun _ => Option.not_isSome_iff_eq_none.mp hlost⟩

theorem safe_resolve_reinit {d : Disk Index} {files : Files} (defaultEncoding : Nat)
    (hresting : d.Resting files) (hmain : d.metadata .main = none) :
    Safe (directory Index) Disk.Stops (resolveEncoding true defaultEncoding)
      (fun found d' => found = some (defaultEncoding, true) ∧ d'.Sound ∧
        d'.metadata .main = none ∧ d'.metadata .prev = none) d := by
  unfold resolveEncoding
  apply safe_does hresting.stops
  have htmp := hresting.removeTmp
  rw [if_pos rfl]
  apply safe_does htmp.stops
  have hprev := htmp.removePrev
  apply safe_does hprev.stops
  have hpeek : (exec (.peekGraphEncoding .main)
      (exec (.remove .prev) (exec (.remove .tmp) d).2).2).1 = Peek.notFound := by
    change peek (d.metadata .main) = _
    rw [hmain]
    rfl
  rw [hpeek]
  exact ⟨rfl, hprev.sound, hmain, rfl⟩

theorem safe_construct_reinit {d : Disk Index} (encoding : Nat) (hsound : d.Sound)
    (hmain : d.metadata .main = none) (hprev : d.metadata .prev = none) :
    Safe (directory Index) Disk.Stops (construct true encoding)
      (fun files d' => d'.Serving files) d := by
  unfold construct
  rw [if_pos rfl]
  apply safe_does (hsound.stops hmain hprev)
  have hdestroyed : (exec .destroyGraph d).2.Sound :=
    ⟨hsound.taken, hsound.older, fun _ h => by cases h⟩
  apply safe_does (hdestroyed.stops hmain hprev)
  have hcreated : (exec .openGraph (exec .destroyGraph d).2).2.Sound := by
    refine ⟨hsound.taken, fun name file h => ?_, ?_⟩
    · exact Nat.lt_succ_of_lt (hsound.older name file h)
    · rintro _ ⟨⟩
      exact Nat.lt_succ_self d.nextFile
  apply safe_does (hcreated.stops hmain hprev)
  have hremoved : (exec .removeVectorFile
      (exec .openGraph (exec .destroyGraph d).2).2).2.Sound :=
    ⟨hcreated.taken, hcreated.older, hcreated.graph⟩
  apply safe_does (hremoved.stops hmain hprev)
  refine ⟨⟨hsound.taken, fun name file h => ?_, ?_⟩, rfl, rfl, ?_, ?_, ?_⟩
  · exact Nat.lt_succ_of_lt (hcreated.older name file h)
  · intro graph hgraph
    exact Nat.lt_succ_of_lt (hcreated.graph graph hgraph)
  · intro file hfile
    change d.metadata .main = some file at hfile
    rw [hmain] at hfile
    cases hfile
  · intro file hfile
    change d.metadata .prev = some file at hfile
    rw [hprev] at hfile
    cases hfile
  · intro file hfile
    exact Nat.ne_of_lt (hsound.older .reinitBak file hfile)

/-- What is known of a store once its encoding was found. -/
structure Resolved (files : Files) (encoding : Nat) (fresh : Bool) (d : Disk Index) :
    Prop where
  resting : d.Resting files
  staged : d.metadata .main = none → d.metadata .reinitBak = none
  known : fresh = false → encoding = files.encoding ∧
    (d.metadata .main ≠ none ∨ d.metadata .prev ≠ none)
  unknown : fresh = true → d.metadata .main = none ∧ deserialize (d.metadata .prev) = none

/-- What the peeks tell. -/
structure Peeked (files : Files) (found : Peek) (d : Disk Index) : Prop where
  ok : ∀ encoding, found = .ok encoding → encoding = files.encoding ∧
    (d.metadata .main ≠ none ∨ d.metadata .prev ≠ none)
  notFound : found = .notFound →
    d.metadata .main = none ∧ deserialize (d.metadata .prev) = none

/-- The previous metadata file is only asked where the main one has no encoding. -/
theorem safe_peekPrev {d : Disk Index} {files : Files} (hresting : d.Resting files)
    {other : Peek} (hnotOk : ∀ encoding, other ≠ .ok encoding)
    (hother : peek (d.metadata .main) = other) :
    Safe (directory Index) Disk.Stops (do
      let there ← does (.fileExists .prev)
      if there then do
        let previous ← does (.peekGraphEncoding .prev)
        match previous with
        | .ok encoding => pure (.ok encoding)
        | _ => pure other
      else pure other) (fun found d' => d' = d ∧ Peeked files found d) d := by
  have hnotFound : other = .notFound → d.metadata .main = none := by
    rintro rfl
    exact peek_eq_notFound hother
  apply safe_does hresting.stops
  split
  · apply safe_does hresting.stops
    split
    · rename_i encoding hpeek
      obtain ⟨file, hfile, rfl⟩ := peek_eq_ok hpeek
      change d.metadata .prev = some file at hfile
      refine ⟨rfl, ?_, by rintro ⟨⟩⟩
      rintro _ ⟨⟩
      refine ⟨congrArg Files.encoding (hresting.prev file hfile).1, .inr ?_⟩
      rw [hfile]
      rintro ⟨⟩
    · rename_i hpeek
      refine ⟨rfl, fun encoding h => absurd h (hnotOk encoding), fun h => ?_⟩
      exact ⟨hnotFound h, deserialize_eq_none hpeek⟩
  · rename_i hgone
    refine ⟨rfl, fun encoding h => absurd h (hnotOk encoding), fun h => ⟨hnotFound h, ?_⟩⟩
    have hnone : d.metadata .prev = none := Option.not_isSome_iff_eq_none.mp hgone
    rw [hnone]
    rfl

theorem safe_peekPrevious {d : Disk Index} {files : Files} (hresting : d.Resting files) :
    Safe (directory Index) Disk.Stops (peekPrevious (peek (d.metadata .main)))
      (fun found d' => d' = d ∧ Peeked files found d) d := by
  cases hpeek : peek (d.metadata .main) with
  | ok encoding =>
      obtain ⟨file, hfile, rfl⟩ := peek_eq_ok hpeek
      refine ⟨rfl, ?_, by rintro ⟨⟩⟩
      rintro _ ⟨⟩
      refine ⟨congrArg Files.encoding (hresting.main file hfile).1, .inl ?_⟩
      rw [hfile]
      rintro ⟨⟩
  | notFound => exact safe_peekPrev hresting (fun _ => by rintro ⟨⟩) hpeek
  | corruption => exact safe_peekPrev hresting (fun _ => by rintro ⟨⟩) hpeek

/-- The encoding is that of the metadata that can be peeked at, if there is any. -/
theorem safe_resolve_keep {d : Disk Index} {files : Files} (defaultEncoding : Nat)
    (hresting : d.Resting files)
    (hstaged : d.metadata .main = none → d.metadata .reinitBak = none) :
    Safe (directory Index) Disk.Stops (resolveEncoding false defaultEncoding)
      (fun found d' => d'.Stops ∧ ∀ encoding fresh, found = some (encoding, fresh) →
        Resolved files encoding fresh d') d := by
  unfold resolveEncoding
  apply safe_does hresting.stops
  have hrest := hresting.removeTmp
  rw [if_neg Bool.false_ne_true]
  apply safe_does hrest.stops
  apply Safe.bind
  apply (safe_peekPrevious hrest).mono
  rintro found _ ⟨rfl, hok, hnotFound⟩
  cases found with
  | ok encoding =>
      refine ⟨hrest.stops, ?_⟩
      rintro _ _ ⟨⟩
      exact ⟨hrest, hstaged, fun _ => hok encoding rfl, fun h => by cases h⟩
  | notFound =>
      have hnone := hnotFound rfl
      apply safe_does hrest.stops
      split
      · refine ⟨hrest.stops, ?_⟩
        rintro _ _ ⟨⟩
        exact ⟨hrest, hstaged, fun h => (by cases h), fun _ => hnone⟩
      · apply safe_does hrest.stops
        split
        · exact ⟨hrest.stops, by rintro _ _ ⟨⟩⟩
        · apply safe_does hrest.stops
          have hmarked := hrest.writeMarker none
          apply safe_does hmarked.stops
          have hwritten := hmarked.writeMarker (some defaultEncoding)
          refine ⟨hwritten.stops, ?_⟩
          rintro _ _ ⟨⟩
          exact ⟨hwritten, hstaged, fun h => (by cases h), fun _ => hnone⟩
  | corruption => exact ⟨hrest.stops, by rintro _ _ ⟨⟩⟩

/-- A directory whose only metadata cannot be loaded. -/
structure Unreadable (d : Disk Index) : Prop where
  stops : d.Stops
  main : d.metadata .main = none
  there : d.metadata .prev ≠ none
  prev : deserialize (d.metadata .prev) = none

namespace Resolved

variable {d : Disk Index} {files : Files} {encoding : Nat} {fresh : Bool}

/-- The files of a store with metadata are there. -/
theorem fits (hresolved : Resolved files encoding fresh d)
    (hthere : d.metadata .main ≠ none ∨ d.metadata .prev ≠ none) :
    d.graph = some files.graph ∧ d.vectorFile = some files.vectorFile := by
  rcases hthere with hmain | hprev
  · obtain ⟨file, hfile⟩ := Option.ne_none_iff_exists'.mp hmain
    obtain ⟨rfl, hfits⟩ := hresolved.resting.main file hfile
    exact hfits
  · obtain ⟨file, hfile⟩ := Option.ne_none_iff_exists'.mp hprev
    obtain ⟨rfl, hfits⟩ := hresolved.resting.prev file hfile
    exact hfits

/-- A store with the encoding of its metadata is ready to be served. -/
theorem serving (hresolved : Resolved files encoding false d) : d.Serving files := by
  obtain ⟨-, hthere⟩ := hresolved.known rfl
  obtain ⟨hgraph, hvectorFile⟩ := hresolved.fits hthere
  have hrest := hresolved.resting
  refine ⟨hrest.sound, hgraph, hvectorFile, fun file h => (hrest.main file h).1,
    fun file h => (hrest.prev file h).1, fun file h hsame => ?_⟩
  rcases eq_or_ne (d.metadata .main) none with hmain | hmain
  · rw [hresolved.staged hmain] at h
    cases h
  · apply hrest.outdated hmain file h
    rw [hgraph, hsame]

end Resolved

theorem exec_openGraph {d : Disk Index} {graph : Nat} (hgraph : d.graph = some graph) :
    exec .openGraph d = (graph, d) := by
  unfold exec
  simp only
  rw [hgraph]

theorem exec_openVectorFile {d : Disk Index} {vectorFile : Nat}
    (hvectorFile : d.vectorFile = some vectorFile) :
    exec .openVectorFile d = (vectorFile, d) := by
  unfold exec
  simp only
  rw [hvectorFile]

/-- Files that are there are opened as they are. -/
theorem safe_construct_there {d : Disk Index} {files : Files} {encoding : Nat}
    (hstops : d.Stops)
    (hthere : d.graph = some files.graph ∧ d.vectorFile = some files.vectorFile) :
    Safe (directory Index) Disk.Stops (construct false encoding)
      (fun opened d' => d' = d ∧ opened = ⟨files.graph, files.vectorFile, encoding⟩) d := by
  unfold construct
  rw [if_neg Bool.false_ne_true]
  apply safe_does hstops
  rw [exec_openGraph hthere.1]
  apply safe_does hstops
  rw [exec_openVectorFile hthere.2]
  exact ⟨rfl, rfl⟩

/-- Without metadata the files that are missing are created. -/
theorem safe_construct_fresh {d : Disk Index} (encoding : Nat) (hsound : d.Sound)
    (hmain : d.metadata .main = none) (hprev : d.metadata .prev = none)
    (hbackup : d.metadata .reinitBak = none) :
    Safe (directory Index) Disk.Stops (construct false encoding)
      (fun opened d' => d'.Serving opened) d := by
  have hserving : ∀ {d' : Disk Index} {files : Files}, d'.Sound →
      d'.metadata = d.metadata → d'.graph = some files.graph →
      d'.vectorFile = some files.vectorFile → d'.Serving files := by
    intro d' files hsound' hsame hgraph hvectorFile
    refine ⟨hsound', hgraph, hvectorFile, ?_, ?_, ?_⟩
    · intro file hfile
      rw [hsame, hmain] at hfile
      cases hfile
    · intro file hfile
      rw [hsame, hprev] at hfile
      cases hfile
    · intro file hfile
      rw [hsame, hbackup] at hfile
      cases hfile
  unfold construct
  rw [if_neg Bool.false_ne_true]
  apply safe_does (hsound.stops hmain hprev)
  have hopened : ∃ graph d', exec .openGraph d = (graph, d') ∧ d'.Sound ∧
      d'.metadata = d.metadata ∧ d'.graph = some graph := by
    cases hgraph : d.graph with
    | some graph => exact ⟨graph, d, exec_openGraph hgraph, hsound, rfl, hgraph⟩
    | none =>
        refine ⟨d.nextFile, { d with graph := some d.nextFile, nextFile := d.nextFile + 1 },
          ?_, ⟨hsound.taken, fun name file h => ?_, ?_⟩, rfl, rfl⟩
        · unfold exec
          simp only
          rw [hgraph]
        · exact Nat.lt_succ_of_lt (hsound.older name file h)
        · rintro _ ⟨⟩
          exact Nat.lt_succ_self d.nextFile
  obtain ⟨graph, d₁, hexec, hsound₁, hsame₁, hgraph₁⟩ := hopened
  rw [hexec]
  apply safe_does (hsound₁.stops (hsame₁ ▸ hmain) (hsame₁ ▸ hprev))
  cases hvectorFile : d₁.vectorFile with
  | some vectorFile =>
      rw [exec_openVectorFile hvectorFile]
      exact hserving hsound₁ hsame₁ hgraph₁ hvectorFile
  | none =>
      have hcreate : exec .openVectorFile d₁ = (d₁.nextFile,
          { d₁ with vectorFile := some d₁.nextFile, nextFile := d₁.nextFile + 1 }) := by
        unfold exec
        simp only
        rw [hvectorFile]
      rw [hcreate]
      refine hserving ⟨hsound₁.taken, fun name file h => ?_, fun graph h => ?_⟩ hsame₁
        hgraph₁ rfl
      · exact Nat.lt_succ_of_lt (hsound₁.older name file h)
      · exact Nat.lt_succ_of_lt (hsound₁.graph graph h)

/-- What is opened is served, or its metadata cannot be loaded. -/
theorem safe_construct_keep {d : Disk Index} {files : Files} {encoding : Nat} {fresh : Bool}
    (hresolved : Resolved files encoding fresh d) :
    Safe (directory Index) Disk.Stops (construct false encoding)
      (fun opened d' => d'.Serving opened ∨ Unreadable d') d := by
  have hstops := hresolved.resting.stops
  cases fresh with
  | false =>
      obtain ⟨rfl, hthere⟩ := hresolved.known rfl
      apply (safe_construct_there hstops (hresolved.fits hthere)).mono
      rintro _ _ ⟨rfl, rfl⟩
      exact .inl hresolved.serving
  | true =>
      obtain ⟨hmain, hprev⟩ := hresolved.unknown rfl
      rcases eq_or_ne (d.metadata .prev) none with hnone | hthere
      · apply (safe_construct_fresh encoding hresolved.resting.sound hmain hnone
          (hresolved.staged hmain)).mono
        exact fun _ _ hserving => .inl hserving
      · apply (safe_construct_there hstops (hresolved.fits (.inr hthere))).mono
        rintro _ _ ⟨rfl, rfl⟩
        exact .inr ⟨hstops, hmain, hthere, hprev⟩

/-- What is loaded was written for the files that are served. -/
def Loaded (opened : Files) (loading : Option (Option (Checkpoint Index)))
    (d : Disk Index) : Prop :=
  d.Stops ∧ ∀ loaded, loading = some loaded → d.Serving opened ∧
    ∀ checkpoint, loaded = some checkpoint →
      checkpoint.files = opened ∧ checkpoint ∈ d.taken

theorem safe_loadMetadata {d : Disk Index} {opened : Files} (hserving : d.Serving opened) :
    Safe (directory Index) Disk.Stops (loadMetadata false) (Loaded opened) d := by
  have hstops := hserving.stops
  unfold loadMetadata
  rw [if_neg Bool.false_ne_true]
  apply safe_does hstops
  apply Safe.bind
  have hnewest : Safe (directory Index) Disk.Stops (readNewest (d.metadata .main).isSome)
      (fun newest d' => d' = d ∧ newest = deserialize (d.metadata .main)) d := by
    unfold readNewest
    split
    · exact safe_last hstops ⟨rfl, rfl⟩
    · rename_i hgone
      refine ⟨rfl, ?_⟩
      rw [Option.not_isSome_iff_eq_none.mp hgone]
      rfl
  apply hnewest.mono
  rintro newest d' ⟨hsame, hnew⟩
  rw [hsame, hnew]
  cases hread : deserialize (d.metadata .main) with
  | some checkpoint =>
      refine ⟨hstops, ?_⟩
      rintro _ ⟨⟩
      refine ⟨hserving, ?_⟩
      rintro _ ⟨⟩
      have hfile := deserialize_eq_some hread
      exact ⟨hserving.main _ hfile, hserving.sound.taken _ _ hfile⟩
  | none =>
      apply safe_does hstops
      split
      · apply safe_does hstops
        split
        · exact ⟨hstops, by rintro _ ⟨⟩⟩
        · rename_i checkpoint hprevious
          have hfile : d.metadata .prev = some ⟨checkpoint, .none⟩ :=
            deserialize_eq_some hprevious
          have hfor := hserving.prev _ hfile
          have htaken := hserving.sound.taken _ _ hfile
          have hdropped : Safe (directory Index) Disk.Stops
              (dropNewest (d.metadata .main).isSome)
              (fun _ d' => d'.Serving opened ∧ d'.taken = d.taken) d := by
            unfold dropNewest
            split
            · exact safe_last hstops ⟨hserving.remove .main, rfl⟩
            · exact ⟨hserving, rfl⟩
          apply Safe.bind
          apply hdropped.mono
          rintro _ d' ⟨hserving', hsame⟩
          refine ⟨hserving'.stops, ?_⟩
          rintro _ ⟨⟩
          refine ⟨hserving', ?_⟩
          rintro _ ⟨⟩
          exact ⟨hfor, hsame ▸ htaken⟩
      · refine ⟨hstops, fun loaded hloaded => ⟨hserving, ?_⟩⟩
        rintro checkpoint rfl
        exfalso
        revert hloaded
        change (if (d.metadata .main).isSome = true then none else some none) = _ → False
        split
        · rintro ⟨⟩
        · rintro ⟨⟩

theorem safe_loadMetadata_unreadable {d : Disk Index} (opened : Files)
    (hunreadable : Unreadable d) :
    Safe (directory Index) Disk.Stops (loadMetadata false) (Loaded opened) d := by
  obtain ⟨hstops, hmain, hthere, hprev⟩ := hunreadable
  unfold loadMetadata
  rw [if_neg Bool.false_ne_true]
  apply safe_does hstops
  have hgone : (exec (.fileExists .main) d).1 = false := by
    change (d.metadata .main).isSome = false
    rw [hmain]
    rfl
  rw [hgone]
  apply safe_does hstops
  have hsome : (exec (.fileExists .prev) d).1 = true := Option.isSome_iff_ne_none.mpr hthere
  rw [if_pos hsome]
  apply safe_does hstops
  split
  · exact ⟨hstops, by rintro _ ⟨⟩⟩
  · rename_i checkpoint hsome
    change deserialize (d.metadata .prev) = some checkpoint at hsome
    rw [hprev] at hsome
    cases hsome

/-- What an open store was loaded from was written for the files it has open. -/
structure Opened.Consistent (opened : Opened Index) (d : Disk Index) : Prop where
  serving : d.Serving opened.files
  loaded : ∀ checkpoint, opened.loaded = some checkpoint →
    checkpoint.files = opened.files ∧ checkpoint ∈ d.taken

/-- The end of an open. -/
def Opens (opening : Option (Opened Index)) (d : Disk Index) : Prop :=
  d.Stops ∧ ∀ opened, opening = some opened → opened.Consistent d

/-- Fresh metadata is written for the files that are served. -/
theorem safe_writeFresh {d : Disk Index} (opened : Opened Index) (index : Index)
    (hconsistent : opened.Consistent d) :
    Safe (directory Index) Disk.Stops
      (do
        writeMetadataFile ⟨opened.files, index⟩
        does (.remove .reinitBak)
        does .removeMarker
        pure (some opened)) Opens d := by
  apply Safe.bind
  apply (safe_writeMetadataFile ⟨opened.files, index⟩
    hconsistent.serving).mono
  rintro _ d₁ ⟨hserving, htaken⟩
  apply safe_does hserving.stops
  have hremoved := hserving.remove .reinitBak
  apply safe_does hremoved.stops
  have hfinal : (exec .removeMarker (exec (.remove .reinitBak) d₁).2).2.Serving
      opened.files :=
    hremoved.congr ⟨hremoved.sound.taken, hremoved.sound.older, hremoved.sound.graph⟩ rfl
      rfl (fun _ h => .inr h) (fun _ h => .inl h) fun _ h => h
  refine ⟨hfinal.stops, ?_⟩
  rintro _ ⟨⟩
  refine ⟨hfinal, fun checkpoint hloaded => ?_⟩
  obtain ⟨hfor, hmem⟩ := hconsistent.loaded checkpoint hloaded
  refine ⟨hfor, ?_⟩
  change checkpoint ∈ d₁.taken
  rw [htaken]
  exact List.mem_cons_of_mem _ hmem

theorem safe_openStore {d : Disk Index} {files : Files} (emptyIndex : Index) (reinit : Bool)
    (defaultEncoding : Nat) (hresting : d.Resting files) :
    Safe (directory Index) Disk.Stops (openStore emptyIndex reinit defaultEncoding) Opens
      d := by
  unfold openStore
  cases reinit with
  | true =>
      apply Safe.bind
      apply (safe_stage_reinit hresting).mono
      rintro _ d₁ ⟨hstaged, hmain⟩
      apply Safe.bind
      apply (safe_resolve_reinit defaultEncoding hstaged hmain).mono
      rintro _ d₂ ⟨rfl, hsound, hmain, hprev⟩
      apply Safe.bind
      apply (safe_construct_reinit defaultEncoding hsound hmain hprev).mono
      intro opened d₃ hserving
      exact safe_writeFresh ⟨none, opened⟩ emptyIndex
        ⟨hserving, fun _ h => by cases h⟩
  | false =>
      apply Safe.bind
      apply (safe_stage_keep hresting).mono
      rintro _ d₁ ⟨hkept, hstaged⟩
      apply Safe.bind
      apply (safe_resolve_keep defaultEncoding hkept hstaged).mono
      rintro found d₂ ⟨hstops, hresolved⟩
      rcases found with _ | ⟨encoding, fresh⟩
      · exact ⟨hstops, by rintro _ ⟨⟩⟩
      · apply Safe.bind
        apply (safe_construct_keep (hresolved encoding fresh rfl)).mono
        intro opened d₃ hcase
        apply Safe.bind
        have hloading : Safe (directory Index) Disk.Stops (loadMetadata false)
            (Loaded opened) d₃ :=
          hcase.elim safe_loadMetadata (safe_loadMetadata_unreadable opened)
        apply hloading.mono
        rintro loading d₄ ⟨hstops, hloaded⟩
        rcases loading with _ | loaded
        · exact ⟨hstops, by rintro _ ⟨⟩⟩
        · obtain ⟨hserving, hfor⟩ := hloaded loaded rfl
          have hconsistent : Opened.Consistent ⟨loaded, opened⟩ d₄ := ⟨hserving, hfor⟩
          change Safe _ _ (if fresh = true then _ else _) _ _
          split
          · exact safe_writeFresh _ _ hconsistent
          · refine ⟨hstops, ?_⟩
            rintro _ ⟨⟩
            exact hconsistent

end AsterVec.StoreFiles

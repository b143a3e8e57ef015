import AsterVec.Programs
import Mathlib.Logic.Function.Basic

/-!
The files of a store directory, and the programs that create, open and checkpoint it.
A graph or vector file that is created anew gets a new number; a checkpoint is written
for the graph, the vector file and the adjacency encoding its process has open.
-/

namespace AsterVec.StoreFiles

open AsterVec.Programs

structure Files where
  graph : Nat
  vectorFile : Nat
  encoding : Nat
deriving DecidableEq, Repr

structure Checkpoint (Index : Type) where
  files : Files
  index : Index
deriving DecidableEq, Repr

/-- What is left of a metadata file: all of it, its header, or nothing that passes a
checksum. -/
inductive Damage where
  | none
  | body
  | header
deriving DecidableEq, Repr

structure MetaFile (Index : Type) where
  checkpoint : Checkpoint Index
  damage : Damage

/-- `lsm_vec_db.meta`, and with the suffixes `.tmp`, `.prev` and `.reinit_bak`. -/
inductive MetaName where
  | main
  | tmp
  | prev
  | reinitBak
deriving DecidableEq, Repr

/-- A store directory.  `creatingMarker` can be there without its content; `taken` are
the checkpoints that were written in full, and `nextFile` numbers what is created. -/
structure Disk (Index : Type) where
  metadata : MetaName → Option (MetaFile Index)
  creatingMarker : Option (Option Nat)
  graph : Option Nat
  vectorFile : Option Nat
  taken : List (Checkpoint Index)
  nextFile : Nat

namespace Disk

def empty (Index : Type) : Disk Index := ⟨fun _ => none, none, none, none, [], 0⟩

variable {Index : Type}

def setMetadata (d : Disk Index) (name : MetaName) (file : Option (MetaFile Index)) :
    Disk Index :=
  { d with metadata := Function.update d.metadata name file }

section Set

variable (d : Disk Index) (name : MetaName) (file : Option (MetaFile Index))

@[simp] theorem setMetadata_self : (d.setMetadata name file).metadata name = file :=
  Function.update_self _ _ _

@[simp] theorem setMetadata_of_ne {name' : MetaName} (hne : name' ≠ name) :
    (d.setMetadata name file).metadata name' = d.metadata name' :=
  Function.update_of_ne hne _ _

end Set

end Disk

/-- The answer of `PeekGraphEncoding`. -/
inductive Peek where
  | ok (encoding : Nat)
  | notFound
  | corruption
deriving DecidableEq, Repr

inductive Call (Index : Type) where
  | fileExists (name : MetaName)
  | remove (name : MetaName)
  | rename (source target : MetaName)
  | link (source target : MetaName)
  | peekGraphEncoding (name : MetaName)
  | deserializeMetadata (name : MetaName)
  | serializeMetadata (checkpoint : Checkpoint Index) (all : Bool)
  | readMarker
  | writeMarker (content : Option Nat)
  | removeMarker
  | currentExists
  | destroyGraph
  | openGraph
  | removeVectorFile
  | openVectorFile

variable {Index : Type}

abbrev Reply : Call Index → Type
  | .fileExists _ => Bool
  | .peekGraphEncoding _ => Peek
  | .deserializeMetadata _ => Option (Checkpoint Index)
  | .readMarker => Option Nat
  | .currentExists => Bool
  | .openGraph => Nat
  | .openVectorFile => Nat
  | _ => Unit

def peek : Option (MetaFile Index) → Peek
  | none => .notFound
  | some ⟨_, .header⟩ => .corruption
  | some ⟨checkpoint, _⟩ => .ok checkpoint.files.encoding

def deserialize : Option (MetaFile Index) → Option (Checkpoint Index)
  | some ⟨checkpoint, .none⟩ => some checkpoint
  | _ => none

/-- What each call does to the directory. -/
def exec : (c : Call Index) → Disk Index → Reply c × Disk Index
  | .fileExists name, d => ((d.metadata name).isSome, d)
  | .remove name, d => ((), d.setMetadata name none)
  | .rename source target, d =>
      ((), (d.setMetadata target (d.metadata source)).setMetadata source none)
  | .link source target, d => ((), d.setMetadata target (d.metadata source))
  | .peekGraphEncoding name, d => (peek (d.metadata name), d)
  | .deserializeMetadata name, d => (deserialize (d.metadata name), d)
  | .serializeMetadata checkpoint false, d =>
      ((), d.setMetadata .tmp (some ⟨checkpoint, .header⟩))
  | .serializeMetadata checkpoint true, d =>
      ((), { d.setMetadata .tmp (some ⟨checkpoint, .none⟩) with
        taken := checkpoint :: d.taken })
  | .readMarker, d => (d.creatingMarker.join, d)
  | .writeMarker content, d => ((), { d with creatingMarker := some content })
  | .removeMarker, d => ((), { d with creatingMarker := none })
  | .currentExists, d => (d.graph.isSome, d)
  | .destroyGraph, d => ((), { d with graph := none })
  | .openGraph, d =>
      match d.graph with
      | some graph => (graph, d)
      | none => (d.nextFile, { d with graph := some d.nextFile, nextFile := d.nextFile + 1 })
  | .removeVectorFile, d => ((), { d with vectorFile := none })
  | .openVectorFile, d =>
      match d.vectorFile with
      | some vectorFile => (vectorFile, d)
      | none =>
          (d.nextFile, { d with vectorFile := some d.nextFile, nextFile := d.nextFile + 1 })

abbrev Prog (Index : Type) := Program (Call Index) (@Reply Index)

/-! The programs -/

/-- Make a call of the directory. -/
def does (c : Call Index) : Prog Index (Reply c) := Program.perform c

/-- A reinit moves the metadata aside; another open brings an orphaned backup back. -/
def stageMetadata (reinit : Bool) : Prog Index Unit := do
  if reinit then
    let there ← does (.fileExists .main)
    if there then do
      does (.remove .reinitBak)
      does (.rename .main .reinitBak)
    else pure ()
  else
    let there ← does (.fileExists .main)
    if there then pure ()
    else do
      let orphaned ← does (.fileExists .reinitBak)
      if orphaned then does (.rename .reinitBak .main) else pure ()

/-- Peek at `.prev` when the newest file does not tell. -/
def peekPrevious : Peek → Prog Index Peek
  | .ok encoding => pure (.ok encoding)
  | other => do
      let there ← does (.fileExists .prev)
      if there then do
        let previous ← does (.peekGraphEncoding .prev)
        match previous with
        | .ok encoding => pure (.ok encoding)
        | _ => pure other
      else pure other

/-- The encoding to open the graph with, and whether fresh metadata must be written;
`none` is an error. -/
def resolveEncoding (reinit : Bool) (defaultEncoding : Nat) :
    Prog Index (Option (Nat × Bool)) := do
  does (.remove .tmp)
  if reinit then
    does (.remove .prev)
    let found ← does (.peekGraphEncoding .main)
    match found with
    | .ok encoding => pure (some (encoding, false))
    | .notFound => pure (some (defaultEncoding, true))
    | .corruption => pure none
  else
    let peeked ← does (.peekGraphEncoding .main)
    let found ← peekPrevious peeked
    match found with
    | .ok encoding => pure (some (encoding, false))
    | .notFound => do
        let interrupted ← does .readMarker
        match interrupted with
        | some encoding => pure (some (encoding, true))
        | none => do
            let data ← does .currentExists
            if data then pure none
            else do
              does (.writeMarker none)
              does (.writeMarker (some defaultEncoding))
              pure (some (defaultEncoding, true))
    | .corruption => pure none

/-- Open the graph and the vector file; a reinit destroys the old ones. -/
def construct (reinit : Bool) (encoding : Nat) : Prog Index Files := do
  if reinit then
    does .destroyGraph
    let graph ← does .openGraph
    does .removeVectorFile
    let vectorFile ← does .openVectorFile
    pure ⟨graph, vectorFile, encoding⟩
  else
    let graph ← does .openGraph
    let vectorFile ← does .openVectorFile
    pure ⟨graph, vectorFile, encoding⟩

def readNewest (haveMain : Bool) : Prog Index (Option (Checkpoint Index)) :=
  if haveMain then does (.deserializeMetadata .main) else pure none

/-- Drop a newest file that is damaged. -/
def dropNewest (haveMain : Bool) : Prog Index Unit :=
  if haveMain then does (.remove .main) else pure ()

/-- Load the newest checkpoint, or the previous one when that is damaged; `none` is an
error, `some none` a store without metadata. -/
def loadMetadata (reinit : Bool) : Prog Index (Option (Option (Checkpoint Index))) :=
  if reinit then pure (some none)
  else do
    let haveMain ← does (.fileExists .main)
    let newest ← readNewest haveMain
    match newest with
    | some checkpoint => pure (some (some checkpoint))
    | none => do
        let there ← does (.fileExists .prev)
        if there then do
          let previous ← does (.deserializeMetadata .prev)
          match previous with
          | none => pure none
          | some checkpoint => do
              dropNewest haveMain
              pure (some (some checkpoint))
        else pure (if haveMain then none else some none)

/-- Write a checkpoint beside the newest one, keep that as the previous one, and put
the new one in its place. -/
def writeMetadataFile (checkpoint : Checkpoint Index) : Prog Index Unit := do
  does (.serializeMetadata checkpoint false)
  does (.serializeMetadata checkpoint true)
  let there ← does (.fileExists .main)
  if there then do
    does (.remove .prev)
    does (.link .main .prev)
    does (.rename .tmp .main)
  else does (.rename .tmp .main)

/-- What an open store was loaded from, and the files it has open. -/
structure Opened (Index : Type) where
  loaded : Option (Checkpoint Index)
  files : Files
deriving DecidableEq

/-- `Open`; `none` is an error. -/
def openStore (emptyIndex : Index) (reinit : Bool) (defaultEncoding : Nat) :
    Prog Index (Option (Opened Index)) := do
  stageMetadata reinit
  let resolved ← resolveEncoding reinit defaultEncoding
  match resolved with
  | none => pure none
  | some (encoding, fresh) => do
      let files ← construct reinit encoding
      let loading ← loadMetadata reinit
      match loading with
      | none => pure none
      | some loaded =>
          if fresh then do
            writeMetadataFile ⟨files, loaded.elim emptyIndex Checkpoint.index⟩
            does (.remove .reinitBak)
            does .removeMarker
            pure (some ⟨loaded, files⟩)
          else pure (some ⟨loaded, files⟩)

end AsterVec.StoreFiles

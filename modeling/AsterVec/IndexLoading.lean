import AsterVec.IndexMetadata
import AsterVec.PagedLoad

/-!
Loading the metadata of an index ends: every loop over a stored count reads bytes in each
round, and the only other one is the growth loop of the paged store.
-/

namespace AsterVec.IndexMetadata

open AsterVec.LittleEndian
open AsterVec.Loading
open AsterVec.PagedVectorStorage

variable {cfg : Config} {Sq8 : Type} {Endless : Prop}

/-! Steps -/

theorem frugal_check (condition : Prop) [Decidable condition] (error : Status) :
    Frugal Endless 0 1 (check condition error) :=
  ((Frugal.pure () 1).ite (Frugal.fail error 0)).mono (by omega) (by omega)

theorem frugal_loadHeader (index : Index cfg Sq8) : Frugal Endless (-7) 1 (loadHeader index) :=
  ((Frugal.read 8 _).bind fun _ => (frugal_check _ _).bind fun _ =>
    (Frugal.number 4 _).bind fun _ => (frugal_check _ _).bind fun _ =>
    (Frugal.number 8 _).bind fun _ => (Frugal.signed 4 _).bind fun _ =>
    (Frugal.number 8 _).bind fun _ => (Frugal.number 8 _).bind fun _ =>
    Frugal.ite
      ((Frugal.number 4 _).bind fun _ => (Frugal.number 4 _).bind fun _ =>
        (frugal_check _ _).bind fun _ => (frugal_check _ _).bind fun _ => Frugal.pure _ 1)
      ((frugal_check _ _).bind fun _ => Frugal.pure _ 1)).mono (by omega) (by omega)

theorem frugal_loadLayer : Frugal Endless 0 1 loadLayer :=
  ((Frugal.signed 4 _).bind fun _ => (Frugal.number 8 _).bind fun count =>
    (Frugal.left 1).bind fun _ => (frugal_check _ _).bind fun _ =>
    ((Frugal.number 8 _).many (by omega) count).bind fun _ => Frugal.pure _ 1).mono
    (by omega) (by omega)

theorem frugal_read (count : Nat) (short : Status) : Frugal Endless 1 1 (read count short) :=
  (Frugal.read count short).mono (by omega) (by omega)

theorem frugal_loadNode (quantizer : Quantizer cfg Sq8) :
    Frugal Endless 0 1 (loadNode quantizer) :=
  ((Frugal.number 8 _).bind fun _ => (Frugal.number 8 _).bind fun pointSize =>
    (frugal_check _ _).bind fun _ => (Frugal.left 1).bind fun _ =>
    (frugal_check _ _).bind fun _ => (frugal_read (4 * pointSize) _).bind fun _ =>
    (Frugal.number 8 _).bind fun layers => (Frugal.left 1).bind fun _ =>
    (frugal_check _ _).bind fun _ => (frugal_loadLayer.many (by omega) layers).bind fun _ =>
    Frugal.pure _ 1).mono (by omega) (by omega)

theorem frugal_loadNodes (quantizer : Quantizer cfg Sq8) (nodeCount : Nat) :
    Frugal Endless 1 2 (loadNodes quantizer nodeCount) :=
  ((Frugal.left 1).bind fun _ => (frugal_check _ _).bind fun _ =>
    ((frugal_loadNode quantizer).many (by omega) nodeCount).bind fun _ =>
    Frugal.pure _ 1).mono (by omega) (by omega)

theorem frugal_loadTombstones (deletedCount : Nat) :
    Frugal Endless 1 2 (loadTombstones deletedCount) :=
  ((Frugal.left 1).bind fun _ => (frugal_check _ _).bind fun _ =>
    ((Frugal.number 8 _).many (by omega) deletedCount).bind fun _ =>
    Frugal.pure _ 1).mono (by omega) (by omega)

theorem frugal_loadUpdate : Frugal Endless 0 1 loadUpdate :=
  ((Frugal.number 8 _).bind fun _ => (Frugal.number 8 _).bind fun _ =>
    Frugal.pure _ 1).mono (by omega) (by omega)

theorem frugal_loadUpdates (version : Nat) : Frugal Endless 0 1 (loadUpdates version) :=
  (Frugal.ite
    ((Frugal.number 8 _).bind fun updatedCount => (Frugal.number 8 _).bind fun _ =>
      (Frugal.left 1).bind fun _ => (frugal_check _ _).bind fun _ =>
      (frugal_loadUpdate.many (by omega) updatedCount).bind fun _ => Frugal.pure _ 1)
    (Frugal.pure _ 1)).mono (by omega) (by omega)

theorem frugal_loadGraph (quantizer : Quantizer cfg Sq8) (index : Index cfg Sq8) :
    Frugal Endless 0 1 (loadGraph quantizer index) :=
  ((frugal_loadHeader index).bind fun header =>
    (frugal_loadNodes quantizer header.nodeCount).bind fun _ =>
    (frugal_loadTombstones header.deletedCount).bind fun _ =>
    (frugal_loadUpdates header.version).bind fun _ => (Frugal.signed 4 _).bind fun _ =>
    (frugal_check _ _).bind fun _ => Frugal.pure _ 1).mono (by omega) (by omega)

theorem frugal_loadPagedHeader : Frugal Endless 0 1 (loadPagedHeader cfg) :=
  ((Frugal.number 4 _).bind fun _ => (Frugal.number 8 _).bind fun _ =>
    (Frugal.number 8 _).bind fun _ => (Frugal.number 8 _).bind fun _ =>
    (Frugal.number 8 _).bind fun _ => (Frugal.number 8 _).bind fun _ =>
    (frugal_check _ _).bind fun _ => (frugal_check _ _).bind fun _ =>
    Frugal.pure _ 1).mono (by omega) (by omega)

theorem frugal_expandCapacity (st : Store cfg) (minCapacity : Nat) :
    Frugal True 66 67 (expandCapacity st minCapacity) :=
  ((Frugal.pure st 67).ite
    ((Frugal.double _ _ 1).bind fun _ => (frugal_check _ _).bind fun _ =>
      Frugal.pure _ 1)).mono (by omega) (by omega)

theorem frugal_loadPage : Frugal Endless 0 1 (loadPage cfg) :=
  ((Frugal.signed 4 _).bind fun _ => (Frugal.number 2 _).bind fun _ =>
    (frugal_check _ _).bind fun _ => Frugal.pure _ 1).mono (by omega) (by omega)

theorem frugal_loadPageIndex : Frugal Endless 0 1 loadPageIndex :=
  ((Frugal.signed 8 _).bind fun _ => (frugal_check _ _).bind fun _ =>
    Frugal.pure _ 1).mono (by omega) (by omega)

theorem frugal_loadUpdateLoc : Frugal Endless 0 1 loadUpdateLoc :=
  ((Frugal.number 8 _).bind fun _ => (Frugal.signed 8 _).bind fun _ =>
    (Frugal.number 2 _).bind fun _ => Frugal.pure _ 1).mono (by omega) (by omega)

theorem frugal_loadUpdateLocs (version : Nat) : Frugal Endless 0 1 (loadUpdateLocs version) :=
  (Frugal.ite
    ((Frugal.number 8 _).bind fun count => (frugal_check _ _).bind fun _ =>
      frugal_loadUpdateLoc.many (by omega) count)
    (Frugal.pure _ 1)).mono (by omega) (by omega)

theorem frugal_loadPagedTables (header : Store.MetaHeader) (st : Store cfg) :
    Frugal Endless 0 1 (loadPagedTables header st) :=
  ((frugal_loadPage.many (by omega) header.pagesSize).bind fun _ =>
    (frugal_check _ _).bind fun _ =>
    ((Frugal.number 8 _).many (by omega) header.sectionKeysSize).bind fun _ =>
    (Frugal.number 8 _).bind fun idToPageSize => (Frugal.number 8 _).bind fun idToSlotSize =>
    (frugal_check _ _).bind fun _ =>
    (frugal_loadPageIndex.many (by omega) idToPageSize).bind fun _ =>
    ((Frugal.number 2 _).many (by omega) idToSlotSize).bind fun _ =>
    (frugal_loadUpdateLocs header.version).bind fun _ =>
    (frugal_check _ _).bind fun _ => Frugal.pure _ 1).mono (by omega) (by omega)

theorem frugal_loadTrailer (version : Nat) : Frugal Endless 0 1 (loadTrailer version) :=
  (Frugal.ite
    ((Frugal.number 8 _).bind fun _ => (Frugal.signed 8 _).bind fun _ =>
      (Frugal.left 1).bind fun _ => Frugal.ite (Frugal.pure _ 1)
        ((Frugal.number 4 _).bind fun _ => (frugal_check _ _).bind fun _ => Frugal.pure _ 1))
    (Frugal.pure _ 1)).mono (by omega) (by omega)

theorem frugal_loadBlock (index : Index cfg Sq8) (loaded : Loaded cfg Sq8) (st : Store cfg)
    (header : Store.MetaHeader) : Frugal True 66 67 (loadBlock index loaded st header) :=
  ((frugal_expandCapacity st header.totalVectors).bind fun grown =>
    (frugal_loadPagedTables header grown).bind fun _ =>
    (frugal_loadTrailer loaded.header.version).bind fun _ =>
    Frugal.pure _ 1).mono (by omega) (by omega)

theorem frugal_deserializeMetadataImpl (quantizer : Quantizer cfg Sq8)
    (index : Index cfg Sq8) :
    Frugal True 66 67 (deserializeMetadataImpl quantizer index) := by
  refine Frugal.mono (Frugal.bind (frugal_loadGraph quantizer index) fun loaded =>
    (?_ : Frugal True 66 67 _)) (by omega) (by omega)
  split
  · split
    · exact (frugal_loadPagedHeader.bind fun header =>
        frugal_loadBlock index loaded _ header).mono (by omega) (by omega)
    · exact (Frugal.fail _ 66).mono (by omega) (by omega)
  · exact ((frugal_loadTrailer loaded.header.version).bind fun _ =>
      Frugal.pure _ 1).mono (by omega) (by omega)

/-! The growth loop -/

/-- No doubling of the capacity in 64 bits reaches `total`. -/
def Unreachable (capacity total : Nat) : Prop :=
  0 < capacity ∧ capacity < total ∧ ∀ k, capacity * 2 ^ k % 2 ^ 64 < total

theorem eval_expandCapacity (st : Store cfg) (total : Nat) (bytes : List UInt8) :
    eval (expandCapacity st total) bytes = .endless ↔ Unreachable st.totalVectors total := by
  unfold expandCapacity
  split
  · rename_i hle
    exact iff_of_false nofun fun hunreachable =>
      absurd hunreachable.2.1 (Nat.not_lt.mpr hle)
  · rename_i hgt
    refine (eval_bind_endless (fun target => ⟨_, _, (frugal_check _ _).bind fun _ =>
      Frugal.pure _ 1⟩) bytes).trans ?_
    unfold double
    cases hfound : Store.doubleUntil total 64
        (if st.totalVectors = 0 then total else st.totalVectors) with
    | some found =>
        rw [eval_double_of_some hfound]
        refine iff_of_false nofun fun hunreachable => ?_
        rw [if_neg (Nat.ne_of_gt hunreachable.1),
          doubleUntil_none_iff.mpr hunreachable.2] at hfound
        cases hfound
    | none =>
        rw [eval_double_of_none hfound]
        refine iff_of_true rfl ?_
        have hunreached := doubleUntil_none_iff.mp hfound
        split at hunreached
        · exact absurd hunreached.1 (Nat.lt_irrefl _)
        · rename_i hcapacity
          exact ⟨Nat.pos_of_ne_zero hcapacity, hunreached⟩

/-- The file passes every check up to the header of the paged store's block, and no
doubling of the capacity reaches the number of vectors stored there. -/
def GrowsForever (quantizer : Quantizer cfg Sq8) (index : Index cfg Sq8)
    (all : List UInt8) : Prop :=
  ∃ body loaded block st header tables,
    payload all = .ok body ∧ eval (loadGraph quantizer index) body = .done loaded block ∧
      index.vectorStorageType = 1 ∧ index.paged = some st ∧
      eval (loadPagedHeader cfg) block = .done header tables ∧
      Unreachable st.totalVectors header.totalVectors

theorem eval_loadBlock (index : Index cfg Sq8) (loaded : Loaded cfg Sq8) (st : Store cfg)
    (header : Store.MetaHeader) (bytes : List UInt8) :
    eval (loadBlock index loaded st header) bytes = .endless ↔
      Unreachable st.totalVectors header.totalVectors :=
  (eval_bind_endless (fun grown => ⟨_, _, (frugal_loadPagedTables header grown).bind fun _ =>
    (frugal_loadTrailer loaded.header.version).bind fun _ => Frugal.pure _ 1⟩) bytes).trans
    (eval_expandCapacity st header.totalVectors bytes)

theorem eval_deserializeMetadataImpl (quantizer : Quantizer cfg Sq8) (index : Index cfg Sq8)
    (body : List UInt8) :
    eval (deserializeMetadataImpl quantizer index) body = .endless ↔
      ∃ loaded block st header tables,
        eval (loadGraph quantizer index) body = .done loaded block ∧
          index.vectorStorageType = 1 ∧ index.paged = some st ∧
          eval (loadPagedHeader cfg) block = .done header tables ∧
          Unreachable st.totalVectors header.totalVectors := by
  refine (eval_endless_bind (frugal_loadGraph quantizer index) _ body).trans ?_
  constructor
  · rintro ⟨loaded, block, hgraph, hrest⟩
    split at hrest
    · rename_i htype
      split at hrest
      · rename_i st hpaged
        rcases (eval_endless_bind frugal_loadPagedHeader _ block).mp hrest with
          ⟨header, tables, hheader, hblock⟩
        exact ⟨loaded, block, st, header, tables, hgraph, htype, hpaged, hheader,
          (eval_loadBlock index loaded st header tables).mp hblock⟩
      · cases hrest
    · exact absurd hrest (((frugal_loadTrailer loaded.header.version).bind fun _ =>
        Frugal.pure _ 1).not_endless block)
  · rintro ⟨loaded, block, st, header, tables, hgraph, htype, hpaged, hheader, hunreachable⟩
    refine ⟨loaded, block, hgraph, ?_⟩
    rw [if_pos htype, hpaged]
    exact (eval_endless_bind frugal_loadPagedHeader _ block).mpr
      ⟨header, tables, hheader, (eval_loadBlock index loaded st header tables).mpr hunreachable⟩

theorem length_payload {all body : List UInt8} (hpayload : payload all = .ok body) :
    body.length ≤ all.length := by
  unfold payload at hpayload
  split at hpayload
  · cases hpayload
  · split at hpayload
    · simp only at hpayload
      split at hpayload
      · cases hpayload
        rw [List.length_take]
        exact Nat.min_le_right _ _
      · cases hpayload
    · cases hpayload
      exact Nat.le_refl _

/-- Loading ends, after at most one step for each byte and 68 more, unless the growth loop
of the paged store does not. -/
theorem deserializeMetadata_ends_iff (quantizer : Quantizer cfg Sq8) (index : Index cfg Sq8)
    (all : List UInt8) :
    (∃ steps ≤ all.length + 68, ∃ result,
      (step^[steps] (deserializeMetadata quantizer index all)).control = .ended result) ↔
      ¬ GrowsForever quantizer index all := by
  unfold deserializeMetadata
  cases hpayload : payload all with
  | error error =>
      refine iff_of_true ⟨0, Nat.zero_le _, _, rfl⟩ ?_
      rintro ⟨body, _, _, _, _, _, hbody, -⟩
      rw [hpayload] at hbody
      cases hbody
  | ok body =>
      have hgrows : GrowsForever quantizer index all ↔
          eval (deserializeMetadataImpl quantizer index) body = .endless := by
        rw [eval_deserializeMetadataImpl]
        constructor
        · rintro ⟨body', loaded, block, st, header, tables, hbody, hrest⟩
          rw [hpayload] at hbody
          cases hbody
          exact ⟨loaded, block, st, header, tables, hrest⟩
        · rintro ⟨loaded, block, st, header, tables, hrest⟩
          exact ⟨body, loaded, block, st, header, tables, hpayload, hrest⟩
      rw [hgrows]
      constructor
      · rintro ⟨steps, -, result, hended⟩ hendless
        exact not_endsWith_of_endless hendless steps result hended
      · intro hends
        rcases (frugal_deserializeMetadataImpl quantizer index).ends hends with
          ⟨steps, hsteps, result, hended⟩
        have hlength := length_payload hpayload
        exact ⟨steps, by omega, result, hended⟩

/-- A quantizer that keeps nothing. -/
def blankQuantizer : Quantizer Store.tinyConfig Unit where
  quantize _ := ()
  dequantize _ := [0, 0, 0, 0]
  length_dequantize _ := rfl

/-- An empty index over a paged store for two vectors. -/
def freshIndex : Index Store.tinyConfig Unit where
  vectorStorageType := 1
  paged := some Store.roomForTwo
  graphEncoding := 0
  entryPoint := 0
  maxLayer := 0
  nodes := []
  tombstonedInternalIds := []
  updatedRealToInternal := ∅
  updatedInternalToReal := ∅
  updateBloom := BloomFilter.reset 512
  nextUpdateInternalId := IdTypes.kFirstUpdateId
  checkpointLsn := 0
  checkpointLiveCount := -1
  idMode := 0

/-- A file of version 2 without nodes whose paged block announces `2^64 - 1` vectors. -/
def hugeTotal : List UInt8 :=
  kMetadataMagic ++ (putLE 4 2 ++ (putLE 8 0 ++ (putInt 4 0 ++ (putLE 8 0 ++ (putLE 8 0 ++
    (putLE 8 0 ++ (putLE 8 IdTypes.kFirstUpdateId ++ (putInt 4 1 ++
      (putLE 4 2 ++ (putLE 8 (2 ^ 64 - 1) ++ (putLE 8 Store.tinyConfig.dim ++
        (putLE 8 Store.tinyConfig.vectorsPerPage ++ (putLE 8 0 ++ putLE 8 0)))))))))))))

/-- Doubling 2 never reaches that number. -/
theorem hugeTotal_neverEnds :
    ¬ ∃ steps result,
      (step^[steps] (deserializeMetadata blankQuantizer freshIndex hugeTotal)).control =
        .ended result := by
  rintro ⟨steps, result, hended⟩
  have hendless :
      eval (deserializeMetadataImpl blankQuantizer freshIndex) hugeTotal = .endless := by rfl
  exact not_endsWith_of_endless hendless steps result hended

end AsterVec.IndexMetadata

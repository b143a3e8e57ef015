import AsterVec.Crc32
import AsterVec.IndexRoundTrip
import AsterVec.OpLogScan
import AsterVec.OpLogTruncation

/-!
What the checksums are for: a record of the log and a metadata file in which one byte has
been changed are noticed.
-/

namespace AsterVec.OpLog

open AsterVec.LittleEndian

/-! One byte of a record -/

/-- The lsn is the last part under the checksum, not the first. -/
theorem bodyCrc_eq (body : List UInt8) : bodyCrc body =
    (Crc32.finish (Crc32.update Crc32.kInit (body.drop 8 ++ body.take 8))).toNat := by
  rw [Crc32.update_append]
  rfl

theorem bodyCrc_set_ne {body : List UInt8} {k : Nat} {byte : UInt8}
    (hne : body.set k byte ≠ body) : bodyCrc (body.set k byte) ≠ bodyCrc body := by
  intro hsame
  rw [bodyCrc_eq, bodyCrc_eq] at hsame
  have hupdate := Crc32.finish_injective (UInt32.toNat_inj.mp hsame)
  have hrotated : ∃ j, (body.set k byte).drop 8 ++ (body.set k byte).take 8 =
      (body.drop 8 ++ body.take 8).set j byte := by
    rcases Nat.lt_or_ge k 8 with hlsn | hfields
    · refine ⟨(body.drop 8).length + k, ?_⟩
      rw [List.drop_set_of_lt hlsn, List.take_set, List.set_append_right _ _ (by omega),
        Nat.add_sub_cancel_left]
    · refine ⟨k - 8, ?_⟩
      rcases Nat.lt_or_ge k body.length with hk | hk
      · rw [List.drop_set, if_neg (Nat.not_lt.mpr hfields), List.take_set_of_le hfields,
          List.set_append_left _ _ (by rw [List.length_drop]; omega)]
      · exact absurd (List.set_eq_of_length_le hk) hne
  obtain ⟨j, hset⟩ := hrotated
  rw [hset] at hupdate
  refine Crc32.update_set_ne _ (fun hback => hne ?_) hupdate
  rw [hback] at hset
  obtain ⟨hdrop, htake⟩ := List.append_inj hset (by simp)
  rw [← List.take_append_drop 8 (body.set k byte), hdrop, htake, List.take_append_drop]

theorem valueLE_set_ne {bytes : List UInt8} {k : Nat} {byte : UInt8}
    (hne : bytes.set k byte ≠ bytes) : valueLE (bytes.set k byte) ≠ valueLE bytes := by
  intro hsame
  have hput := congrArg (putLE bytes.length) hsame
  have hset := putLE_valueLE (bytes.set k byte)
  rw [List.length_set] at hset
  rw [hset, putLE_valueLE] at hput
  exact hne hput

/-- A body behind its length and another checksum is no record. -/
theorem getRecord_mismatch {crc body : List UInt8} (hcrc : crc.length = 4)
    (hbody : body.length < 256 ^ 4) (hne : bodyCrc body ≠ valueLE crc) (rest : List UInt8) :
    getRecord (putLE 4 body.length ++ (crc ++ body) ++ rest) = none := by
  generalize hbytes : putLE 4 body.length ++ (crc ++ body) ++ rest = bytes
  have hfront : bytes.take 4 = putLE 4 body.length := by
    rw [← hbytes, List.append_assoc, List.take_left' (putLE_length _ _)]
  have hfour : bytes.drop 4 = crc ++ (body ++ rest) := by
    rw [← hbytes, List.append_assoc, List.drop_left' (putLE_length _ _), List.append_assoc]
  have hrest : bytes.drop kPrefixBytes = body ++ rest := by
    change bytes.drop (4 + 4) = _
    rw [← List.drop_drop, hfour, List.drop_left' hcrc]
  unfold getRecord
  split
  · rfl
  · simp only [hfront, hfour, hrest, List.take_left' hcrc, valueLE_putLE hbody]
    split
    · rfl
    · rw [List.take_left, if_pos hne]

/-- A record with another byte behind its length is none. -/
theorem getRecord_set {rec : OpRecord} (hfits : rec.Fits) {k : Nat} (hlow : 4 ≤ k)
    {byte : UInt8} (hne : (putRecord rec).set k byte ≠ putRecord rec) (rest : List UInt8) :
    getRecord ((putRecord rec).set k byte ++ rest) = none := by
  have hmax : rec.bodyLength < 256 ^ 4 := Nat.lt_of_le_of_lt hfits.body_le (by decide)
  have hstored : valueLE (putLE 4 (bodyCrc (putBody rec))) = bodyCrc (putBody rec) :=
    valueLE_putLE (bodyCrc_lt _)
  have hcrc : (putLE 4 (bodyCrc (putBody rec))).length = 4 := putLE_length _ _
  have hrecord : putRecord rec = putLE 4 (putBody rec).length ++
      (putLE 4 (bodyCrc (putBody rec)) ++ putBody rec) := by
    rw [putBody_length]
    rfl
  have htail : (putRecord rec).set k byte = putLE 4 (putBody rec).length ++
      (putLE 4 (bodyCrc (putBody rec)) ++ putBody rec).set (k - 4) byte := by
    rw [hrecord, List.set_append_right _ _ (by rw [putLE_length]; exact hlow), putLE_length]
  rw [← putBody_length] at hmax
  rcases Nat.lt_or_ge (k - 4) 4 with hsum | hbody
  · rw [List.set_append_left _ _ (hcrc.symm ▸ hsum)] at htail
    rw [htail]
    refine getRecord_mismatch (by rw [List.length_set, hcrc]) hmax (fun hsame => ?_) rest
    refine valueLE_set_ne (fun hback => hne ?_) (hsame.symm.trans hstored.symm)
    rw [htail, hback, hrecord]
  · rw [List.set_append_right _ _ (hcrc.symm ▸ hbody), hcrc] at htail
    have hlength : ((putBody rec).set (k - 4 - 4) byte).length = (putBody rec).length :=
      List.length_set
    rw [htail, ← hlength]
    refine getRecord_mismatch hcrc (by rwa [hlength]) ?_ rest
    rw [hstored]
    refine bodyCrc_set_ne fun hback => hne ?_
    rw [htail, hback, hrecord]

/-! What a scan can find -/

def Outcome.delivered : Outcome → List OpRecord
  | .outside => []
  | .returned st => st.delivered
  | .next st => st.delivered

/-- The records that are found in a segment. -/
def Finds (seg : Segment) (own : List OpRecord) : Prop :=
  (∀ rec ∈ own, rec.Fits) ∧
    ∃ torn, getRecord torn = none ∧ seg.bytes = putRecords own ++ torn

theorem delivered_scanFile (fn : Callback) (fromLsn : Nat) {pos : Nat} {file torn : List UInt8}
    {own : List OpRecord} (hpos : pos ≤ file.length) (hfits : ∀ rec ∈ own, rec.Fits)
    (htorn : getRecord torn = none) (hfile : file.drop pos = putRecords own ++ torn)
    (st : ScanState) :
    ∀ rec ∈ (scanFile fn fromLsn file pos st).delivered, rec ∈ st.delivered ∨ rec ∈ own := by
  induction own generalizing pos st with
  | nil =>
      have hnone : getRecord (file.drop pos) = none := by rw [hfile]; exact htorn
      rcases scanFile_cases fn fromLsn st hpos with
        ⟨hscan, -⟩ | ⟨_, _, -, -, hsome, -⟩
      · rw [hscan]
        exact fun rec hrec => .inl hrec
      · rw [hnone] at hsome
        cases hsome
  | cons first own ih =>
      have hfirst : getRecord (file.drop pos) = some (first, putRecords own ++ torn) := by
        have hcons : putRecords (first :: own) = putRecord first ++ putRecords own := rfl
        rw [hfile, hcons, List.append_assoc]
        exact getRecord_putRecord (hfits first (by simp)) _
      rcases scanFile_cases fn fromLsn st hpos with
        ⟨-, hnone⟩ | ⟨found, next, -, hle, hsome, -, hscan⟩
      · rw [hfirst] at hnone
        cases hnone
      · rw [hfirst] at hsome
        obtain ⟨rfl, hnext⟩ := Prod.mk.inj (Option.some.inj hsome)
        have hrest := ih hle (fun rec hrec => hfits rec (by simp [hrec])) hnext.symm
        intro rec hrec
        rw [hscan] at hrec
        split at hrec
        · exact (hrest st rec hrec).imp_right (List.mem_cons_of_mem _)
        · split at hrec
          · exact .inl hrec
          · split at hrec
            · rcases hrest _ rec hrec with hold | hlater
              · rcases List.mem_append.mp hold with hbefore | hnew
                · exact .inl hbefore
                · exact .inr (by simp [List.mem_singleton.mp hnew])
              · exact .inr (List.mem_cons_of_mem _ hlater)
            · rcases List.mem_append.mp hrec with hbefore | hnew
              · exact .inl hbefore
              · exact .inr (by simp [List.mem_singleton.mp hnew])

theorem delivered_scanFiles {fn : Callback} {fromLsn : Nat} {segs : List Segment}
    {owns : List (List OpRecord)} (hfinds : List.Forall₂ Finds segs owns)
    (opened : List Segment) (st : ScanState) :
    ∀ rec ∈ (scanFiles fn fromLsn segs opened st).1.delivered,
      rec ∈ st.delivered ∨ rec ∈ owns.flatten := by
  induction hfinds generalizing opened st with
  | nil => exact fun rec hrec => .inl hrec
  | @cons seg own later owns hseg hlater ih =>
      intro rec hrec
      rw [List.flatten_cons, List.mem_append]
      rw [scanFiles] at hrec
      split at hrec
      · exact (ih opened st rec hrec).imp_right .inr
      · obtain ⟨hfits, torn, htorn, hbytes⟩ := hseg
        have hfile := delivered_scanFile fn fromLsn (Nat.zero_le _) hfits
          htorn (List.drop_zero.trans hbytes) st
        split at hrec
        · rename_i st' hscan
          rw [hscan] at hfile
          rcases ih _ st' rec hrec with hold | hmore
          · exact (hfile rec hold).imp_right .inl
          · exact .inr (.inr hmore)
        · exact (hfile rec hrec).imp_right .inl

/-! The places of the records -/

theorem forall₂_split {α β : Type} {R : α → β → Prop} {front later : List α} {x : α}
    {ys : List β} (hall : List.Forall₂ R (front ++ x :: later) ys) :
    ∃ frontYs y laterYs, ys = frontYs ++ y :: laterYs ∧ List.Forall₂ R front frontYs ∧
      R x y ∧ List.Forall₂ R later laterYs := by
  induction front generalizing ys with
  | nil =>
      obtain ⟨y, laterYs, hx, hlater, rfl⟩ := List.forall₂_cons_left_iff.mp hall
      exact ⟨[], y, laterYs, rfl, .nil, hx, hlater⟩
  | cons first front ih =>
      obtain ⟨y, ys', hfirst, hrest, rfl⟩ := List.forall₂_cons_left_iff.mp hall
      obtain ⟨frontYs, y', laterYs, rfl, hfront, hx, hlater⟩ := ih hrest
      exact ⟨y :: frontYs, y', laterYs, rfl, .cons hfirst hfront, hx, hlater⟩

theorem Numbered.fits {lo : Nat} {recs : List OpRecord} (hnumbered : Numbered lo recs) :
    ∀ rec ∈ recs, rec.Fits := by
  induction recs generalizing lo with
  | nil => exact fun rec hrec => by cases hrec
  | cons first recs ih =>
      intro rec hrec
      rcases List.mem_cons.mp hrec with rfl | hlater
      · exact hnumbered.2.1
      · exact ih hnumbered.2.2 rec hlater

theorem Segment.Has.finds {seg : Segment} {lo : Nat} {own : List OpRecord}
    (hhas : seg.Has lo own) : Finds seg own :=
  ⟨hhas.2.1.fits, hhas.2.2⟩

theorem Sealed.finds {lo : Nat} {segs : List Segment} {recs : List OpRecord}
    (hsealed : Sealed lo segs recs) : ∃ owns, List.Forall₂ Finds segs owns ∧ owns.flatten = recs := by
  induction hsealed with
  | nil => exact ⟨[], .nil, rfl⟩
  | @cons lo seg own recs segs hseg _ _ ih =>
      obtain ⟨owns, hfinds, hflatten⟩ := ih
      exact ⟨own :: owns, .cons hseg.finds hfinds, by rw [List.flatten_cons, hflatten]⟩

theorem Holds.finds {lo : Nat} {segs : List Segment} {recs : List OpRecord}
    (hholds : Holds lo segs recs) :
    ∃ owns, List.Forall₂ Finds segs owns ∧ owns.flatten = recs := by
  cases hholds with
  | closed hsealed => exact hsealed.finds
  | @current segs recs own seg hsealed hseg =>
      obtain ⟨owns, hfinds, hflatten⟩ := hsealed.finds
      refine ⟨owns ++ [own], List.rel_append hfinds (.cons hseg.finds .nil), ?_⟩
      rw [List.flatten_append, hflatten, List.flatten_singleton]

theorem putRecords_cons (first : OpRecord) (recs : List OpRecord) :
    putRecords (first :: recs) = putRecord first ++ putRecords recs :=
  List.flatMap_cons

/-- What is found first is the record at the front. -/
theorem eq_cons_of_putRecord {first : OpRecord} {own : List OpRecord} {tail torn : List UInt8}
    (hfirst : first.Fits) (hfits : ∀ rec ∈ own, rec.Fits) (htorn : getRecord torn = none)
    (hsame : putRecord first ++ tail = putRecords own ++ torn) :
    ∃ more, own = first :: more ∧ tail = putRecords more ++ torn := by
  have hread := getRecord_putRecord hfirst tail
  rw [hsame] at hread
  cases own with
  | nil =>
      change getRecord torn = _ at hread
      rw [htorn] at hread
      cases hread
  | cons found more =>
      rw [putRecords_cons, List.append_assoc, getRecord_putRecord (hfits found (by simp))]
        at hread
      cases hread
      exact ⟨more, rfl, rfl⟩

/-- The records of a segment are found one behind the other. -/
theorem eq_append_of_putRecords {before own : List OpRecord} {rec : OpRecord}
    {rest torn : List UInt8} (hbefore : ∀ other ∈ before, other.Fits) (hrec : rec.Fits)
    (hfits : ∀ rec ∈ own, rec.Fits) (htorn : getRecord torn = none)
    (hsame : putRecords before ++ (putRecord rec ++ rest) = putRecords own ++ torn) :
    ∃ more, own = before ++ rec :: more := by
  induction before generalizing own with
  | nil =>
      obtain ⟨more, hown, -⟩ := eq_cons_of_putRecord hrec hfits htorn hsame
      exact ⟨more, hown⟩
  | cons first before ih =>
      rw [putRecords_cons, List.append_assoc] at hsame
      obtain ⟨found, rfl, hrest⟩ :=
        eq_cons_of_putRecord (hbefore first (by simp)) hfits htorn hsame
      obtain ⟨more, rfl⟩ := ih (fun other hother => hbefore other (by simp [hother]))
        (fun other hother => hfits other (by simp [hother])) hrest
      exact ⟨more, rfl⟩

/-- Where the bytes of a record are: behind other accepted records, in a segment. -/
structure Place (segs : List Segment) (accepted : List OpRecord) (rec : OpRecord) where
  front : List Segment
  firstLsn : Nat
  before : List OpRecord
  rest : List UInt8
  later : List Segment
  segs_eq : segs =
    front ++ ⟨firstLsn, putRecords before ++ (putRecord rec ++ rest)⟩ :: later
  before_accepted : ∀ other ∈ before, other ∈ accepted

/-- The directory with one byte of the record changed. -/
def Place.damaged {segs : List Segment} {accepted : List OpRecord} {rec : OpRecord}
    (place : Place segs accepted rec) (k : Nat) (byte : UInt8) : List Segment :=
  place.front ++
    ⟨place.firstLsn, putRecords place.before ++ ((putRecord rec).set k byte ++ place.rest)⟩ ::
      place.later

theorem Stands.exists_place {log : Option Log} {segs : List Segment}
    {accepted : List OpRecord} {lo : Nat} (hstands : Stands log segs accepted lo)
    {rec : OpRecord} (hrec : rec ∈ accepted) (hlow : lo ≤ rec.lsn) :
    Nonempty (Place segs accepted rec) := by
  obtain ⟨owns, hfinds, hflatten⟩ := hstands.holds.finds
  have hkept : rec ∈ owns.flatten := by
    have hpositive := hstands.positive
    have hfilter := filter_numbered hstands.numbered lo
    rw [hflatten, ← hfilter, List.mem_filter]
    exact ⟨hrec, decide_eq_true hlow⟩
  have hall : ∀ own ∈ owns, ∀ other ∈ own, other ∈ accepted := by
    intro own hown other hother
    have hmem : other ∈ owns.flatten := List.mem_flatten.mpr ⟨own, hown, hother⟩
    rw [hflatten] at hmem
    exact List.mem_of_mem_drop hmem
  obtain ⟨own, hown, hmem⟩ := List.mem_flatten.mp hkept
  obtain ⟨frontOwns, laterOwns, rfl⟩ := List.append_of_mem hown
  obtain ⟨before, more, rfl⟩ := List.append_of_mem hmem
  obtain ⟨front, seg, later, rfl, -, ⟨-, torn, -, hbytes⟩, -⟩ := forall₂_split hfinds.flip
  refine ⟨⟨front, seg.firstLsn, before, putRecords more ++ torn, later, ?_, ?_⟩⟩
  · have hseg : seg = ⟨seg.firstLsn, seg.bytes⟩ := rfl
    rw [hseg, hbytes, putRecords, List.flatMap_append, List.flatMap_cons]
    simp only [putRecords, List.append_assoc]
  · exact fun other hother => hall _ hown other (List.mem_append_left _ hother)

/-- A record with a changed byte is not delivered, and nothing in its stead. -/
theorem Stands.delivered_damaged {log : Option Log} {segs : List Segment}
    {accepted : List OpRecord} {lo : Nat} (hstands : Stands log segs accepted lo)
    {rec : OpRecord} (hrec : rec ∈ accepted) (place : Place segs accepted rec) {k : Nat}
    (hlow : 4 ≤ k) {byte : UInt8} (hne : (putRecord rec).set k byte ≠ putRecord rec)
    (fn : Callback) (fromLsn : Nat) :
    ∀ other ∈ (scanLog fn fromLsn (place.damaged k byte)).1.delivered,
      other.lsn ≠ rec.lsn := by
  obtain ⟨front, firstLsn, before, rest, later, rfl, hbefore⟩ := place
  have hfits := hstands.numbered.fits
  obtain ⟨owns, hfinds, hflatten⟩ := hstands.holds.finds
  obtain ⟨frontOwns, own, laterOwns, rfl, hfront, ⟨hown, torn, htorn, hbytes⟩, hlater⟩ :=
    forall₂_split hfinds
  obtain ⟨more, rfl⟩ := eq_append_of_putRecords (fun other hother => hfits _ (hbefore _ hother))
    (hfits rec hrec) hown htorn hbytes
  have hnodup : ((accepted.drop (lo - 1)).map OpRecord.lsn).Nodup := by
    rw [hstands.holds.numbered.map_lsn]
    exact List.nodup_range'
  have hothers : ∀ other ∈ frontOwns.flatten ++ (before ++ laterOwns.flatten),
      other.lsn ≠ rec.lsn := by
    rw [← hflatten, List.flatten_append, List.flatten_cons, List.append_assoc, List.cons_append,
      ← List.append_assoc, List.map_append, List.map_cons, List.nodup_middle,
      List.nodup_cons] at hnodup
    intro other hother hlsn
    apply hnodup.1
    rw [← hlsn, ← List.map_append]
    apply List.mem_map_of_mem
    simp only [List.mem_append] at hother ⊢
    tauto
  -- the segment ends in front of the record
  have hdamaged : Finds
      ⟨firstLsn, putRecords before ++ ((putRecord rec).set k byte ++ rest)⟩ before :=
    ⟨fun other hother => hown other (List.mem_append_left _ hother), _,
      getRecord_set (hfits rec hrec) hlow hne rest, rfl⟩
  intro other hother
  have hfound := delivered_scanFiles (List.rel_append hfront (.cons hdamaged hlater)) []
    ⟨[], fromLsn, 0, false⟩ other hother
  rcases hfound with hnone | hfound
  · cases hnone
  · rw [List.flatten_append, List.flatten_cons] at hfound
    exact hothers other hfound

end AsterVec.OpLog

namespace AsterVec.IndexMetadata

open AsterVec.LittleEndian
open AsterVec.Loading
open AsterVec.PagedVectorStorage

variable {cfg : Config} {Sq8 : Type}

/-- `DeserializeMetadata` on an index in place, whatever the parser makes of the payload
and of the index. -/
def deserializeInPlace (parse : List UInt8 → Index cfg Sq8 → Status × Index cfg Sq8)
    (index : Index cfg Sq8) (all : List UInt8) : Status × Index cfg Sq8 :=
  match payload all with
  | .ok body => parse body index
  | .error error => (error, index)

def payloadDamaged : Status := .corruption "metadata payload CRC mismatch — file is damaged"

theorem crc32_lt (body : List UInt8) : crc32 body < 256 ^ 4 := UInt32.toNat_lt _

/-- One byte of a file is changed, but none of its version. -/
theorem payload_set {body rest : List UInt8}
    (hbody : body = kMetadataMagic ++ (putLE 4 kMetadataVersion ++ rest)) {k : Nat}
    (hversion : k < 8 ∨ 12 ≤ k) {byte : UInt8}
    (hne : (body ++ putLE 4 (crc32 body)).set k byte ≠ body ++ putLE 4 (crc32 body)) :
    payload ((body ++ putLE 4 (crc32 body)).set k byte) = .error payloadDamaged := by
  have hcrc : valueLE (putLE 4 (crc32 body)) = crc32 body := valueLE_putLE (crc32_lt body)
  have hlong : 12 ≤ body.length := by
    rw [hbody, List.length_append, List.length_append, putLE_length]
    change 12 ≤ 8 + (4 + rest.length)
    omega
  generalize hall : (body ++ putLE 4 (crc32 body)).set k byte = all at hne ⊢
  have hlength : all.length = body.length + 4 := by
    rw [← hall, List.length_set, List.length_append, putLE_length]
  have hkept : (all.drop 8).take 4 = putLE 4 kMetadataVersion := by
    have hfront : ((body ++ putLE 4 (crc32 body)).drop 8).take 4 = putLE 4 kMetadataVersion := by
      conv_lhs => rw [hbody]
      rfl
    rw [← hfront, ← hall]
    rcases hversion with hmagic | hbehind
    · rw [List.drop_set_of_lt hmagic]
    · rw [List.drop_set, if_neg (by omega), List.take_set_of_le (by omega)]
  have hthree : 3 ≤ valueLE ((all.drop 8).take 4) := by
    rw [hkept]
    decide
  have hmismatch : crc32 (all.take (all.length - 4)) ≠ valueLE (all.drop (all.length - 4)) := by
    rw [hlength, Nat.add_sub_cancel]
    rcases Nat.lt_or_ge k body.length with hin | hout
    · rw [List.set_append_left _ _ hin] at hall
      have hsame : (body.set k byte).length = body.length := List.length_set
      rw [← hall, ← hsame, List.take_left, List.drop_left, hcrc]
      intro hequal
      have hupdate := Crc32.finish_injective (UInt32.toNat_inj.mp hequal)
      refine Crc32.update_set_ne _ (fun hback => hne ?_) hupdate
      rw [← hall, hback]
    · rw [List.set_append_right _ _ hout] at hall
      rw [← hall, List.take_left, List.drop_left]
      intro hequal
      refine OpLog.valueLE_set_ne (fun hback => hne ?_) (hequal.symm.trans hcrc.symm)
      rw [← hall, hback]
  unfold payload
  rw [if_neg (by omega), if_pos hthree, if_neg hmismatch]
  rfl

theorem serializeMetadataImpl_front {quantizer : Quantizer cfg Sq8} {index : Index cfg Sq8}
    {body : List UInt8} (hsaved : serializeMetadataImpl quantizer index = .ok body) :
    ∃ rest, body = kMetadataMagic ++ (putLE 4 kMetadataVersion ++ rest) := by
  unfold serializeMetadataImpl at hsaved
  split at hsaved
  · cases hsaved
  · obtain rfl := Except.ok.inj hsaved
    unfold MetaHeaderV3.bytes
    exact ⟨_, by rw [List.append_assoc, List.append_assoc]; rfl⟩

/-- A file is its payload and the checksum of that, and the payload starts with the magic
and the version. -/
theorem serializeMetadata_eq {quantizer : Quantizer cfg Sq8} {index : Index cfg Sq8}
    {sizes : List Nat} {file : List UInt8}
    (hsaved : serializeMetadata quantizer index sizes = .ok file) :
    ∃ body rest, file = body ++ putLE 4 (crc32 body) ∧
      body = kMetadataMagic ++ (putLE 4 kMetadataVersion ++ rest) := by
  unfold serializeMetadata at hsaved
  split at hsaved
  · cases hsaved
  · rename_i body himpl
    obtain ⟨rest, hfront⟩ := serializeMetadataImpl_front himpl
    simp only [writeAll_eq _ _ CrcOStreamBuf.empty rfl] at hsaved
    exact ⟨body, rest, (Except.ok.inj hsaved).symm, hfront⟩

/-- One changed byte of a record of the log keeps a scan from delivering the record, or any
other with its lsn; one changed byte of a metadata file that is not of its version keeps it
from being loaded, and the index stays as it was. -/
theorem checksums_detect {log : Option OpLog.Log} {segs : List OpLog.Segment}
    {accepted : List OpLog.OpRecord} (hhistory : OpLog.Histories log segs accepted) :
    (∀ rec ∈ accepted,
      (∀ first ∈ segs.head?, first.firstLsn ≤ rec.lsn →
        Nonempty (OpLog.Place segs accepted rec)) ∧
      ∀ (place : OpLog.Place segs accepted rec) (k : Nat) (hk : k < (OpLog.putRecord rec).length)
        (byte : UInt8), 4 ≤ k → byte ≠ (OpLog.putRecord rec)[k] → ∀ fn fromLsn,
        ∀ other ∈ (OpLog.scanLog fn fromLsn (place.damaged k byte)).1.delivered,
          other.lsn ≠ rec.lsn) ∧
    ∀ (quantizer : Quantizer cfg Sq8) (index : Index cfg Sq8) (sizes : List Nat)
      (file : List UInt8), serializeMetadata quantizer index sizes = .ok file →
      ∀ (k : Nat) (hk : k < file.length) (byte : UInt8), k < 8 ∨ 12 ≤ k → byte ≠ file[k] →
        ∀ parse (loaded : Index cfg Sq8),
          deserializeInPlace parse loaded (file.set k byte) = (payloadDamaged, loaded) := by
  have hset : ∀ (bytes : List UInt8) (k : Nat) (hk : k < bytes.length) (byte : UInt8),
      byte ≠ bytes[k] → bytes.set k byte ≠ bytes := by
    intro bytes k hk byte hne hback
    have hbyte := congrArg (fun list : List UInt8 => list[k]?) hback
    simp only [List.getElem?_set_self hk, List.getElem?_eq_getElem hk] at hbyte
    exact hne (Option.some.inj hbyte)
  obtain ⟨lo, hstands⟩ := hhistory.stands
  refine ⟨fun rec hrec => ⟨fun first hfirst hle => ?_, ?_⟩, ?_⟩
  · obtain ⟨later, rfl⟩ : ∃ later, segs = first :: later := by
      cases segs with
      | nil => cases hfirst
      | cons seg later => exact ⟨later, by cases hfirst; rfl⟩
    exact hstands.exists_place hrec (hstands.holds.head ▸ hle)
  · intro place k hk byte hlow hne
    exact hstands.delivered_damaged hrec place hlow (hset _ k hk byte hne)
  · intro quantizer index sizes file hsaved k hk byte hversion hne parse loaded
    obtain ⟨body, rest, rfl, hbody⟩ := serializeMetadata_eq hsaved
    unfold deserializeInPlace
    rw [payload_set hbody hversion (hset _ k hk byte hne)]

/-- The low byte of the second lsn, and the first byte of the magic. -/
theorem twoRecords_damaged :
    (∃ place : OpLog.Place OpLog.twoRecords.2
        ([{ OpLog.insertSeven with lsn := 1 }] ++ [{ OpLog.insertSeven with lsn := 2 }])
        { OpLog.insertSeven with lsn := 2 },
      ∀ other ∈ (OpLog.scanLog (fun _ _ => true) 1 (place.damaged 8 9)).1.delivered,
        other.lsn ≠ 2) ∧
    ∃ file, serializeMetadata tinyQuantizer tinyIndex [3, 100] = .ok file ∧
      ∀ parse, deserializeInPlace parse tinyIndex (file.set 0 0) =
        (payloadDamaged, tinyIndex) := by
  obtain ⟨hlog, hmetadata⟩ := @checksums_detect Store.tinyConfig
    {bytes : List UInt8 // bytes.length = 4} _ _ _ OpLog.histories_twoRecords
  constructor
  · obtain ⟨hplace, hdamaged⟩ := hlog { OpLog.insertSeven with lsn := 2 } (by simp)
    obtain ⟨place⟩ := hplace ⟨1, _⟩ rfl (by decide)
    exact ⟨place, hdamaged place 8 (by decide) 9 (by decide) (by decide) _ 1⟩
  · obtain ⟨file, hsaved, -⟩ := loads_tinyIndex
    refine ⟨file, hsaved, fun parse => ?_⟩
    obtain ⟨body, rest, hfile, hbody⟩ := serializeMetadata_eq hsaved
    have hfirst : file[0]? = some 0x4C := by
      rw [hfile, hbody]
      rfl
    obtain ⟨hk, hbyte⟩ := List.getElem?_eq_some_iff.mp hfirst
    exact hmetadata tinyQuantizer tinyIndex [3, 100] file hsaved 0 hk 0 (.inl (by decide))
      (by rw [hbyte]; decide) parse tinyIndex

end AsterVec.IndexMetadata

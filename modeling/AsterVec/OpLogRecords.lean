import Mathlib.Data.List.Basic
import Mathlib.Logic.Function.Iterate
import AsterVec.LittleEndian

/-!
Records of the operation log: the checksum, the bytes `Append` writes for one
record and the record `Scan` finds at the front of a byte string.
-/

namespace AsterVec.Crc32

/-- One bit of the division by the reflected polynomial. -/
def shiftBit (c : UInt32) : UInt32 :=
  if c &&& 1 ≠ 0 then (0xEDB88320 : UInt32) ^^^ (c >>> 1) else c >>> 1

/-- Entry of the table for one byte. -/
def tableEntry (byte : UInt32) : UInt32 := shiftBit^[8] byte

def kInit : UInt32 := 0xFFFFFFFF

def update (crc : UInt32) (data : List UInt8) : UInt32 :=
  data.foldl
    (fun crc byte => tableEntry ((crc ^^^ byte.toUInt32) &&& 0xFF) ^^^ (crc >>> 8)) crc

def finish (crc : UInt32) : UInt32 := crc ^^^ 0xFFFFFFFF

end AsterVec.Crc32

namespace AsterVec.OpLog

open AsterVec.LittleEndian

/-- What a record does.  `other` is a byte no writer produces. -/
inductive OpType where
  | kInsert
  | kUpdate
  | kDelete
  | kAbort
  | other (code : Nat)
  deriving DecidableEq, Repr

def OpType.code : OpType → Nat
  | kInsert => 1
  | kUpdate => 2
  | kDelete => 3
  | kAbort => 4
  | other code => code

def OpType.ofCode : Nat → OpType
  | 1 => kInsert
  | 2 => kUpdate
  | 3 => kDelete
  | 4 => kAbort
  | code => other code

structure OpRecord where
  lsn : Nat
  op : OpType
  encoding : Nat
  realId : Nat
  internalId : Nat
  aux : Nat
  record : List UInt8
  key : List UInt8
  payload : List UInt8
  deriving DecidableEq

/-- Bytes before the body: its length and its checksum. -/
def kPrefixBytes : Nat := 8

def kFixedBody : Nat := 8 + 1 + 1 + 8 + 8 + 8 + 4 + 4 + 4

def kMaxBodyBytes : Nat := 64 <<< 20

def OpRecord.bodyLength (rec : OpRecord) : Nat :=
  kFixedBody + rec.record.length + rec.key.length + rec.payload.length

/-- The fields after the lsn. -/
def putFields (rec : OpRecord) : List UInt8 :=
  putLE 1 rec.op.code ++ (putLE 1 rec.encoding ++ (putLE 8 rec.realId ++
  (putLE 8 rec.internalId ++ (putLE 8 rec.aux ++ (putLE 4 rec.record.length ++
  (rec.record ++ (putLE 4 rec.key.length ++ (rec.key ++
  (putLE 4 rec.payload.length ++ rec.payload)))))))))

def putBody (rec : OpRecord) : List UInt8 := putLE 8 rec.lsn ++ putFields rec

/-- Checksum of a body: the part after the lsn first, then the lsn. -/
def bodyCrc (body : List UInt8) : Nat :=
  (Crc32.finish (Crc32.update (Crc32.update Crc32.kInit (body.drop 8))
    (body.take 8))).toNat

/-- The bytes of one record in a segment. -/
def putRecord (rec : OpRecord) : List UInt8 :=
  putLE 4 rec.bodyLength ++ (putLE 4 (bodyCrc (putBody rec)) ++ putBody rec)

/-- A byte string behind its length, with at least `reserve` bytes after it. -/
def getField (reserve : Nat) : Reader (List UInt8) := do
  let len ← getLE 4
  fun bytes =>
    if len ≤ bytes.length - reserve then some (bytes.take len, bytes.drop len) else none

/-- A byte string behind its length, with nothing after it. -/
def getLastField : Reader (List UInt8) := do
  let len ← getLE 4
  fun bytes => if len = bytes.length then some (bytes, []) else none

def getBody : Reader OpRecord := do
  let lsn ← getLE 8
  let op ← getLE 1
  let encoding ← getLE 1
  let realId ← getLE 8
  let internalId ← getLE 8
  let aux ← getLE 8
  let record ← getField 8
  let key ← getField 4
  let payload ← getLastField
  return { lsn, op := OpType.ofCode op, encoding, realId, internalId, aux, record,
           key, payload }

/-- The record at the front of a segment's remaining bytes and the bytes after
it; `none` for a torn or corrupt record. -/
def getRecord (bytes : List UInt8) : Option (OpRecord × List UInt8) :=
  if bytes.length < kPrefixBytes then none
  else
    let bodyLen := valueLE (bytes.take 4)
    let crc := valueLE ((bytes.drop 4).take 4)
    let rest := bytes.drop kPrefixBytes
    if bodyLen < kFixedBody ∨ kMaxBodyBytes < bodyLen ∨ rest.length < bodyLen then none
    else
      let body := rest.take bodyLen
      if bodyCrc body ≠ crc then none
      else (getBody.run body).map fun found => (found.1, rest.drop bodyLen)

/-- Every field fits its bytes, and the body is one `Scan` accepts. -/
structure OpRecord.Fits (rec : OpRecord) : Prop where
  lsn_lt : rec.lsn < 2 ^ 64
  op_eq : OpType.ofCode rec.op.code = rec.op
  op_lt : rec.op.code < 256
  encoding_lt : rec.encoding < 256
  real_lt : rec.realId < 2 ^ 64
  internal_lt : rec.internalId < 2 ^ 64
  aux_lt : rec.aux < 2 ^ 64
  body_le : rec.bodyLength ≤ kMaxBodyBytes

theorem putFields_length (rec : OpRecord) :
    (putFields rec).length + 8 = rec.bodyLength := by
  simp only [putFields, List.length_append, putLE_length, OpRecord.bodyLength,
    kFixedBody]
  omega

theorem putBody_length (rec : OpRecord) : (putBody rec).length = rec.bodyLength := by
  rw [putBody, List.length_append, putLE_length, Nat.add_comm]
  exact putFields_length rec

theorem putRecord_length (rec : OpRecord) :
    (putRecord rec).length = kPrefixBytes + rec.bodyLength := by
  simp only [putRecord, List.length_append, putLE_length, putBody_length, kPrefixBytes]
  omega

theorem putRecord_ne_nil (rec : OpRecord) : putRecord rec ≠ [] := by
  intro hnil
  have hlength := putRecord_length rec
  rw [hnil, List.length_nil] at hlength
  unfold kPrefixBytes at hlength
  omega

theorem bodyCrc_lt (body : List UInt8) : bodyCrc body < 256 ^ 4 :=
  UInt32.toNat_lt _

theorem getField_putField {reserve : Nat} (field : List UInt8) {rest : List UInt8}
    (hfield : field.length < 2 ^ 32) (hrest : reserve ≤ rest.length) :
    (getField reserve).run (putLE 4 field.length ++ (field ++ rest)) =
      some (field, rest) := by
  rw [getField, StateT.run_bind, getLE_putLE_append _ hfield]
  change (if field.length ≤ (field ++ rest).length - reserve then _ else _) = _
  rw [if_pos (by rw [List.length_append]; omega), List.take_left, List.drop_left]

theorem getLastField_putField (field : List UInt8) (hfield : field.length < 2 ^ 32) :
    getLastField.run (putLE 4 field.length ++ field) = some (field, []) := by
  rw [getLastField, StateT.run_bind, getLE_putLE_append _ hfield]
  exact if_pos rfl

/-- A body is read back as the record it was written from. -/
theorem getBody_putBody {rec : OpRecord} (hfits : rec.Fits) :
    getBody.run (putBody rec) = some (rec, []) := by
  obtain ⟨hlsn, hop, hcode, hencoding, hreal, hinternal, haux, hbody⟩ := hfits
  have hmax : kMaxBodyBytes < 2 ^ 32 := by decide
  have hlengths : rec.record.length < 2 ^ 32 ∧ rec.key.length < 2 ^ 32 ∧
      rec.payload.length < 2 ^ 32 := by
    unfold OpRecord.bodyLength at hbody
    omega
  obtain ⟨hrecord, hkey, hpayload⟩ := hlengths
  simp only [getBody, putBody, putFields, StateT.run_bind]
  rw [getLE_putLE_append _ hlsn]
  simp only [Option.bind_eq_bind, Option.bind_some]
  rw [getLE_putLE_append _ hcode]
  simp only [Option.bind_some]
  rw [getLE_putLE_append _ hencoding]
  simp only [Option.bind_some]
  rw [getLE_putLE_append _ hreal]
  simp only [Option.bind_some]
  rw [getLE_putLE_append _ hinternal]
  simp only [Option.bind_some]
  rw [getLE_putLE_append _ haux]
  simp only [Option.bind_some]
  rw [getField_putField rec.record hrecord
    (by simp only [List.length_append, putLE_length]; omega)]
  simp only [Option.bind_some]
  rw [getField_putField rec.key hkey
    (by simp only [List.length_append, putLE_length]; omega)]
  simp only [Option.bind_some]
  rw [getLastField_putField rec.payload hpayload]
  simp only [Option.bind_some, hop]
  rfl

/-- The front of a byte string that starts with a record's bytes. -/
theorem prefix_putRecord (rec : OpRecord) (rest : List UInt8) :
    (putRecord rec ++ rest).take 4 = putLE 4 rec.bodyLength ∧
      ((putRecord rec ++ rest).drop 4).take 4 = putLE 4 (bodyCrc (putBody rec)) ∧
      (putRecord rec ++ rest).drop kPrefixBytes = putBody rec ++ rest := by
  have hfour : (putRecord rec ++ rest).drop 4 =
      putLE 4 (bodyCrc (putBody rec)) ++ (putBody rec ++ rest) := by
    rw [putRecord, List.append_assoc, List.drop_left' (putLE_length _ _),
      List.append_assoc]
  refine ⟨?_, ?_, ?_⟩
  · rw [putRecord, List.append_assoc, List.take_left' (putLE_length _ _)]
  · rw [hfour, List.take_left' (putLE_length _ _)]
  · change (putRecord rec ++ rest).drop (4 + 4) = _
    rw [← List.drop_drop, hfour, List.drop_left' (putLE_length _ _)]

/-- A record is found where it was appended. -/
theorem getRecord_putRecord {rec : OpRecord} (hfits : rec.Fits) (rest : List UInt8) :
    getRecord (putRecord rec ++ rest) = some (rec, rest) := by
  obtain ⟨hlen, hcrc, hrest⟩ := prefix_putRecord rec rest
  have hmax : kMaxBodyBytes < 256 ^ 4 := by decide
  have hbodyLen : rec.bodyLength < 256 ^ 4 := Nat.lt_of_le_of_lt hfits.body_le hmax
  have hfixed : kFixedBody ≤ rec.bodyLength := by
    unfold OpRecord.bodyLength
    omega
  simp only [getRecord, hlen, hcrc, hrest, valueLE_putLE hbodyLen,
    valueLE_putLE (bodyCrc_lt _)]
  rw [if_neg, if_neg, List.take_left' (putBody_length rec), if_neg (by simp),
    getBody_putBody hfits, List.drop_left' (putBody_length rec)]
  · rfl
  · rw [List.length_append, putBody_length]
    have hle := hfits.body_le
    omega
  · rw [List.length_append, putRecord_length]
    omega

/-- The front of a record that was cut off while it was written is no record. -/
theorem getRecord_torn {rec : OpRecord} (hfits : rec.Fits) {torn : List UInt8}
    (htorn : torn <+: putRecord rec) (hshort : torn.length < (putRecord rec).length) :
    getRecord torn = none := by
  unfold getRecord
  split
  · rfl
  · rename_i hlong
    have hlength := putRecord_length rec
    have heq : torn = (putRecord rec).take torn.length := List.prefix_iff_eq_take.mp htorn
    have htake : torn.take 4 = putLE 4 rec.bodyLength := by
      have hfront := (prefix_putRecord rec []).1
      rw [List.append_nil] at hfront
      rw [heq, List.take_take, Nat.min_eq_left, hfront]
      unfold kPrefixBytes at hlong
      omega
    have hbodyLen : rec.bodyLength < 256 ^ 4 :=
      Nat.lt_of_le_of_lt hfits.body_le (by decide)
    simp only [htake, valueLE_putLE hbodyLen, List.length_drop]
    rw [if_pos]
    omega

end AsterVec.OpLog

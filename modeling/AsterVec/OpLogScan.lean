import AsterVec.OpLog

/-!
The scan over the bytes of the files.  The fields of a body are read by their positions,
the lengths that are left are differences of unsigned numbers, and a read past the end of
the body shows.
-/

namespace AsterVec.LittleEndian

theorem putLE_valueLE (bytes : List UInt8) : putLE bytes.length (valueLE bytes) = bytes := by
  induction bytes with
  | nil => rfl
  | cons byte bytes ih =>
      have hbyte := byte.toNat_lt
      have hlow : UInt8.ofNat (byte.toNat + 256 * valueLE bytes) = byte := by
        apply UInt8.toNat_inj.mp
        rw [UInt8.toNat_ofNat']
        omega
      have hhigh : (byte.toNat + 256 * valueLE bytes) / 256 = valueLE bytes := by omega
      rw [valueLE, List.length_cons, putLE, hlow, hhigh, ih]

/-- What was read is what would be written. -/
theorem getLE_eq_some {width value : Nat} {bytes rest : List UInt8}
    (hread : (getLE width).run bytes = some (value, rest)) :
    bytes = putLE width value ++ rest ∧ value < 256 ^ width := by
  change (if width ≤ bytes.length then _ else _) = _ at hread
  split at hread
  · rename_i hle
    cases hread
    have hlen : (bytes.take width).length = width := List.length_take_of_le hle
    have hput := putLE_valueLE (bytes.take width)
    have hlt := valueLE_lt (bytes.take width)
    rw [hlen] at hput hlt
    exact ⟨by rw [hput, List.take_append_drop], hlt⟩
  · cases hread

end AsterVec.LittleEndian

namespace AsterVec.OpLog

open AsterVec.LittleEndian

/-! What a body that is accepted looks like -/

theorem OpType.code_ofCode (code : Nat) : (OpType.ofCode code).code = code := by
  unfold OpType.ofCode
  split <;> rfl

theorem getField_eq_some {reserve : Nat} {field bytes rest : List UInt8}
    (hread : (getField reserve).run bytes = some (field, rest)) :
    bytes = putLE 4 field.length ++ (field ++ rest) := by
  rw [getField, StateT.run_bind, Option.bind_eq_bind, Option.bind_eq_some_iff] at hread
  obtain ⟨⟨len, tail⟩, hlen, hfield⟩ := hread
  obtain ⟨rfl, -⟩ := getLE_eq_some hlen
  change (if len ≤ tail.length - reserve then _ else _) = _ at hfield
  split at hfield
  · rename_i hle
    have hlong : len ≤ tail.length := hle.trans (Nat.sub_le _ _)
    cases hfield
    rw [List.length_take_of_le hlong, List.take_append_drop]
  · cases hfield

theorem getLastField_eq_some {field bytes rest : List UInt8}
    (hread : getLastField.run bytes = some (field, rest)) :
    bytes = putLE 4 field.length ++ field ∧ rest = [] := by
  rw [getLastField, StateT.run_bind, Option.bind_eq_bind, Option.bind_eq_some_iff] at hread
  obtain ⟨⟨len, tail⟩, hlen, hfield⟩ := hread
  obtain ⟨rfl, -⟩ := getLE_eq_some hlen
  change (if len = tail.length then _ else _) = _ at hfield
  split at hfield
  · rename_i heq
    cases hfield
    exact ⟨by rw [heq], rfl⟩
  · cases hfield

/-- A body is accepted only if it is the one `Append` writes for the record. -/
theorem getBody_eq_some {rec : OpRecord} {body rest : List UInt8}
    (hread : getBody.run body = some (rec, rest)) : body = putBody rec ∧ rest = [] := by
  simp only [getBody, StateT.run_bind, Option.bind_eq_bind, Option.bind_eq_some_iff] at hread
  obtain ⟨⟨lsn, b1⟩, hlsn, ⟨op, b2⟩, hop, ⟨encoding, b3⟩, hencoding, ⟨realId, b4⟩, hreal,
    ⟨internalId, b5⟩, hinternal, ⟨aux, b6⟩, haux, ⟨record, b7⟩, hrecord, ⟨key, b8⟩, hkey,
    ⟨payload, b9⟩, hpayload, heq⟩ := hread
  cases heq
  obtain ⟨rfl, -⟩ := getLE_eq_some hlsn
  obtain ⟨rfl, -⟩ := getLE_eq_some hop
  obtain ⟨rfl, -⟩ := getLE_eq_some hencoding
  obtain ⟨rfl, -⟩ := getLE_eq_some hreal
  obtain ⟨rfl, -⟩ := getLE_eq_some hinternal
  obtain ⟨rfl, -⟩ := getLE_eq_some haux
  obtain rfl := getField_eq_some hrecord
  obtain rfl := getField_eq_some hkey
  obtain ⟨rfl, rfl⟩ := getLastField_eq_some hpayload
  refine ⟨?_, rfl⟩
  simp only [putBody, putFields, OpType.code_ofCode]

/-! Reading by position -/

/-- What the fields of a body make; `outside` is a read past its end. -/
inductive Parsed where
  | outside
  | malformed
  | record (rec : OpRecord)

/-- The difference of two `size_t`. -/
def sizeSub (a b : Nat) : Nat := (a + 2 ^ 64 - b) % 2 ^ 64

/-- `get` at a position of the body. -/
def getAt (width p : Nat) (body : List UInt8) (follow : Nat → Parsed) : Parsed :=
  if body.length < p + width then .outside
  else follow (valueLE ((body.drop p).take width))

/-- A view of the body. -/
def viewAt (p length : Nat) (body : List UInt8) (follow : List UInt8 → Parsed) : Parsed :=
  if body.length < p + length then .outside else follow ((body.drop p).take length)

def parsePayload (p : Nat) (body : List UInt8) (follow : List UInt8 → OpRecord) : Parsed :=
  getAt 4 p body fun payLen =>
    let p := p + 4
    if payLen ≠ sizeSub body.length p then .malformed
    else viewAt p payLen body fun payload => .record (follow payload)

/-- A field with `reserve` more bytes of the body behind it. -/
def parseField (reserve p : Nat) (body : List UInt8)
    (follow : Nat → List UInt8 → Parsed) : Parsed :=
  getAt 4 p body fun len =>
    let p := p + 4
    if sizeSub (sizeSub body.length p) reserve < len then .malformed
    else viewAt p len body fun field => follow (p + len) field

def parseBody (body : List UInt8) : Parsed :=
  getAt 8 0 body fun lsn =>
  getAt 1 8 body fun op =>
  getAt 1 9 body fun encoding =>
  getAt 8 10 body fun realId =>
  getAt 8 18 body fun internalId =>
  getAt 8 26 body fun aux =>
  parseField 8 34 body fun p record =>
  parseField 4 p body fun p key =>
  parsePayload p body fun payload =>
    { lsn, op := OpType.ofCode op, encoding, realId, internalId, aux, record, key, payload }

/-- What is found at a position of a file: a record with the position behind it, or one
that is torn or corrupt. -/
inductive Found where
  | outside
  | torn
  | record (rec : OpRecord) (next : Nat)

/-- The checksum of a loaded body, the part after the lsn first. -/
def checksumOf (body : List UInt8) (follow : Nat → Found) : Found :=
  if body.length < 8 + sizeSub body.length 8 then .outside else follow (bodyCrc body)

def recordAt (file : List UInt8) (pos : Nat) : Found :=
  if file.length - pos < kPrefixBytes then .torn
  else
    let bodyLen := valueLE ((file.drop pos).take 4)
    let crc := valueLE ((file.drop (pos + 4)).take 4)
    if bodyLen < kFixedBody ∨ kMaxBodyBytes < bodyLen ∨
        file.length - pos - kPrefixBytes < bodyLen then .torn
    else
      let body := (file.drop (pos + kPrefixBytes)).take bodyLen
      checksumOf body fun actual =>
        if actual ≠ crc then .torn
        else
          match parseBody body with
          | .outside => .outside
          | .malformed => .torn
          | .record rec => .record rec (pos + kPrefixBytes + bodyLen)

/-! The positions are inside -/

section

variable {body : List UInt8} {p : Nat}

theorem sizeSub_of_le {a b : Nat} (hle : b ≤ a) (ha : a < 2 ^ 64) : sizeSub a b = a - b := by
  unfold sizeSub
  omega

theorem getAt_inside {width : Nat} {follow : Nat → Parsed} (hp : p + width ≤ body.length) :
    getAt width p body follow = follow (valueLE ((body.drop p).take width)) :=
  if_neg (Nat.not_lt.mpr hp)

theorem getLE_drop {width : Nat} (hp : p + width ≤ body.length) :
    (getLE width).run (body.drop p) =
      some (valueLE ((body.drop p).take width), body.drop (p + width)) := by
  change (if width ≤ (body.drop p).length then _ else _) = _
  rw [if_pos (by rw [List.length_drop]; omega), List.drop_drop]

/-- The outcome of a reader as the one of the fields. -/
def Parsed.ofRead : Option (OpRecord × List UInt8) → Parsed
  | none => .malformed
  | some (rec, _) => .record rec

variable (hlen : body.length < 2 ^ 64)
include hlen

theorem parsePayload_eq (hp : p + 4 ≤ body.length) (follow : List UInt8 → OpRecord) :
    parsePayload p body follow = .ofRead ((getLastField.run (body.drop p)).map
      fun found => (follow found.1, found.2)) := by
  unfold parsePayload
  rw [getAt_inside hp, getLastField, StateT.run_bind, getLE_drop hp]
  simp only [Option.bind_eq_bind, Option.bind_some, sizeSub_of_le hp hlen]
  generalize valueLE ((body.drop p).take 4) = len
  have hdrop : (body.drop (p + 4)).length = body.length - (p + 4) := List.length_drop
  change _ = Parsed.ofRead (Option.map _ (if len = (body.drop (p + 4)).length then _ else _))
  rw [hdrop]
  split
  · rfl
  · rename_i heq
    rw [if_pos (not_not.mp heq), viewAt, if_neg (by omega),
      List.take_of_length_le (by rw [hdrop]; omega)]
    rfl

theorem parseField_eq {reserve : Nat} (hp : p + 4 + reserve ≤ body.length)
    {follow : Nat → List UInt8 → Parsed} {read : List UInt8 → Reader OpRecord}
    (hfollow : ∀ len, p + 4 + len + reserve ≤ body.length →
      follow (p + 4 + len) ((body.drop (p + 4)).take len) =
        .ofRead ((read ((body.drop (p + 4)).take len)).run (body.drop (p + 4 + len)))) :
    parseField reserve p body follow =
      .ofRead ((getField reserve >>= read).run (body.drop p)) := by
  unfold parseField
  rw [getAt_inside (by omega), StateT.run_bind, getField, StateT.run_bind,
    getLE_drop (by omega)]
  simp only [Option.bind_eq_bind, Option.bind_some]
  rw [sizeSub_of_le (by omega) hlen, sizeSub_of_le (by omega) (by omega)]
  generalize valueLE ((body.drop p).take 4) = len
  have hdrop : (body.drop (p + 4)).length = body.length - (p + 4) := List.length_drop
  change _ = Parsed.ofRead (Option.bind
    (if len ≤ (body.drop (p + 4)).length - reserve then _ else _) _)
  rw [hdrop]
  split
  · rename_i hlong
    rw [if_neg (by omega)]
    rfl
  · rename_i hshort
    rw [if_pos (by omega), viewAt, if_neg (by omega), hfollow len (by omega),
      Option.bind_some, List.drop_drop]

/-- Every position of a body that is long enough is inside it, and the fields are those
that the reader finds. -/
theorem parseBody_eq (hfixed : kFixedBody ≤ body.length) :
    parseBody body = .ofRead (getBody.run body) := by
  unfold kFixedBody at hfixed
  unfold parseBody
  rw [getAt_inside (by omega), getAt_inside (by omega), getAt_inside (by omega),
    getAt_inside (by omega), getAt_inside (by omega), getAt_inside (by omega)]
  have hstart : getBody.run body = getBody.run (body.drop 0) := rfl
  rw [hstart, getBody, StateT.run_bind, getLE_drop (by omega)]
  simp only [Option.bind_eq_bind, Option.bind_some]
  rw [StateT.run_bind, getLE_drop (by omega)]
  simp only [Option.bind_eq_bind, Option.bind_some]
  rw [StateT.run_bind, getLE_drop (by omega)]
  simp only [Option.bind_eq_bind, Option.bind_some]
  rw [StateT.run_bind, getLE_drop (by omega)]
  simp only [Option.bind_eq_bind, Option.bind_some]
  rw [StateT.run_bind, getLE_drop (by omega)]
  simp only [Option.bind_eq_bind, Option.bind_some]
  rw [StateT.run_bind, getLE_drop (by omega)]
  simp only [Option.bind_eq_bind, Option.bind_some]
  refine parseField_eq hlen (by omega) fun recLen hrecord => ?_
  refine parseField_eq hlen (by omega) fun keyLen hkey => ?_
  rw [parsePayload_eq hlen (by omega), StateT.run_bind]
  cases getLastField.run (body.drop (34 + 4 + recLen + 4 + keyLen)) <;> rfl

end

/-- The outcome of `getRecord` behind a position as what is found there. -/
def Found.ofRead (file : List UInt8) : Option (OpRecord × List UInt8) → Found
  | none => .torn
  | some (rec, rest) => .record rec (file.length - rest.length)

theorem recordAt_eq {file : List UInt8} {pos : Nat} (hpos : pos ≤ file.length) :
    recordAt file pos = .ofRead file (getRecord (file.drop pos)) := by
  unfold recordAt getRecord
  rw [List.length_drop]
  split
  · rfl
  · rename_i hprefix
    simp only [List.drop_drop, List.length_drop]
    generalize valueLE ((file.drop pos).take 4) = bodyLen
    generalize valueLE ((file.drop (pos + 4)).take 4) = crc
    rw [Nat.sub_sub]
    split
    · rfl
    · rename_i hbody
      rw [not_or, not_or, Nat.not_lt, Nat.not_lt, Nat.not_lt] at hbody
      obtain ⟨hfixed, hmax, hfits⟩ := hbody
      have hbody : ((file.drop (pos + kPrefixBytes)).take bodyLen).length = bodyLen := by
        rw [List.length_take_of_le]
        rwa [List.length_drop]
      have hword : bodyLen < 2 ^ 64 := Nat.lt_of_le_of_lt hmax (by decide)
      have hlsn : 8 ≤ bodyLen := Nat.le_trans (by decide) hfixed
      unfold checksumOf
      rw [if_neg (by rw [hbody, sizeSub_of_le hlsn hword]; omega)]
      generalize (file.drop (pos + kPrefixBytes)).take bodyLen = body at hbody ⊢
      subst hbody
      rw [parseBody_eq hword hfixed]
      change (if bodyCrc body ≠ crc then _ else _) = _
      split
      · rfl
      · cases getBody.run body with
        | none => rfl
        | some found =>
            have hnext : file.length - (file.drop (pos + kPrefixBytes + body.length)).length =
                pos + kPrefixBytes + body.length := by
              rw [List.length_drop]
              unfold kPrefixBytes at *
              omega
            change Found.record found.1 _ = .record found.1
              (file.length - (file.drop (pos + kPrefixBytes + body.length)).length)
            rw [hnext]

/-! Files -/

/-- A file has the record: its body behind its length and its checksum, and its fields fill
the body. -/
def Intact (rec : OpRecord) (file : List UInt8) : Prop :=
  ∃ before body after,
    file = before ++ (putLE 4 body.length ++ (putLE 4 (bodyCrc body) ++ body)) ++ after ∧
      body = putBody rec ∧
      body.length = kFixedBody + rec.record.length + rec.key.length + rec.payload.length

/-- A record is accepted only as `Append` writes it. -/
theorem getRecord_eq_some {rec : OpRecord} {bytes rest : List UInt8}
    (hread : getRecord bytes = some (rec, rest)) :
    bytes = putRecord rec ++ rest ∧ rec.bodyLength ≤ kMaxBodyBytes := by
  unfold getRecord at hread
  split at hread
  · cases hread
  · rename_i hprefix
    simp only at hread
    split at hread
    · cases hread
    · rename_i hbody
      rw [not_or, not_or, Nat.not_lt, Nat.not_lt, Nat.not_lt] at hbody
      obtain ⟨-, hmax, hfits⟩ := hbody
      split at hread
      · cases hread
      · rename_i hcrc
        rw [Option.map_eq_some_iff] at hread
        obtain ⟨⟨found, tail⟩, hfound, heq⟩ := hread
        cases heq
        obtain ⟨hput, -⟩ := getBody_eq_some hfound
        have hlength := List.length_take_of_le hfits
        rw [hput, putBody_length] at hlength
        have hfour : (bytes.take 4).length = 4 := List.length_take_of_le (by
          unfold kPrefixBytes at hprefix
          omega)
        have hfour' : ((bytes.drop 4).take 4).length = 4 := List.length_take_of_le (by
          rw [List.length_drop]
          unfold kPrefixBytes at hprefix
          omega)
        have hlenBytes := putLE_valueLE (bytes.take 4)
        have hcrcBytes := putLE_valueLE ((bytes.drop 4).take 4)
        rw [hfour] at hlenBytes
        rw [hfour', ← not_not.mp hcrc, hput] at hcrcBytes
        refine ⟨?_, by rwa [hlength]⟩
        rw [putRecord, hlength, hlenBytes, hcrcBytes, ← hput, List.append_assoc,
          List.append_assoc, List.take_append_drop]
        change bytes = bytes.take 4 ++ ((bytes.drop 4).take 4 ++ bytes.drop (4 + 4))
        rw [← List.drop_drop, List.take_append_drop, List.take_append_drop]

theorem intact_of_getRecord {rec : OpRecord} {before bytes rest : List UInt8}
    (hread : getRecord bytes = some (rec, rest)) : Intact rec (before ++ bytes) := by
  obtain ⟨rfl, -⟩ := getRecord_eq_some hread
  refine ⟨before, putBody rec, rest, ?_, rfl, putBody_length rec⟩
  rw [putBody_length, List.append_assoc]
  rfl

/-- What is found at a position inside a file. -/
theorem recordAt_cases {file : List UInt8} {pos : Nat} (hpos : pos ≤ file.length) :
    recordAt file pos = .torn ∧ getRecord (file.drop pos) = none ∨
      ∃ rec next, recordAt file pos = .record rec next ∧ pos < next ∧ next ≤ file.length ∧
        getRecord (file.drop pos) = some (rec, file.drop next) ∧ Intact rec file := by
  rw [recordAt_eq hpos]
  cases hread : getRecord (file.drop pos) with
  | none => exact .inl ⟨rfl, rfl⟩
  | some found =>
      obtain ⟨rec, rest⟩ := found
      obtain ⟨hbytes, -⟩ := getRecord_eq_some hread
      have hlength := congrArg List.length hbytes
      rw [List.length_append, List.length_drop] at hlength
      have hsome := List.length_pos_iff.mpr (putRecord_ne_nil rec)
      have hnext : file.length - rest.length = pos + (putRecord rec).length := by omega
      have hrest : rest = file.drop (file.length - rest.length) := by
        rw [hnext, ← List.drop_drop, hbytes, List.drop_left]
      have hintact : Intact rec (file.take pos ++ file.drop pos) := intact_of_getRecord hread
      rw [List.take_append_drop] at hintact
      exact .inr ⟨rec, file.length - rest.length, rfl, by omega, by omega,
        by rw [← hrest], hintact⟩

theorem recordAt_next {file : List UInt8} {pos next : Nat} {rec : OpRecord}
    (hpos : pos < file.length) (hfound : recordAt file pos = .record rec next) :
    pos < next := by
  rcases recordAt_cases hpos.le with ⟨htorn, -⟩ | ⟨_, _, hrecord, hlt, -⟩
  · rw [htorn] at hfound
    cases hfound
  · rw [hrecord] at hfound
    cases hfound
    exact hlt

/-! The scan -/

/-- A callback may answer by what it was given before; it accepts a record or ends the
scan. -/
abbrev Callback := List OpRecord → OpRecord → Bool

/-- How the scan of a file ends: with a read outside a body, for good, or at its end. -/
inductive Outcome where
  | outside
  | returned (st : ScanState)
  | next (st : ScanState)

def scanFile (fn : Callback) (fromLsn : Nat) (file : List UInt8) (pos : Nat)
    (st : ScanState) : Outcome :=
  if _hpos : pos < file.length then
    match _hfound : recordAt file pos with
    | .outside => .outside
    | .torn => .next { st with droppedBytes := st.droppedBytes + (file.length - pos) }
    | .record rec next =>
        if rec.lsn < fromLsn then scanFile fn fromLsn file next st
        else if rec.lsn ≠ st.expected then .returned { st with gap := true }
        else if fn st.delivered rec then
          scanFile fn fromLsn file next
            { st with delivered := st.delivered ++ [rec], expected := st.expected + 1 }
        else .returned { st with delivered := st.delivered ++ [rec] }
  else .next { st with droppedBytes := st.droppedBytes + (file.length - pos) }
termination_by file.length - pos
decreasing_by
  all_goals
    have hlt := recordAt_next _hpos _hfound
    omega

/-- The files are read in order; the list has those that were opened. -/
def scanFiles (fn : Callback) (fromLsn : Nat) :
    List Segment → List Segment → ScanState → Outcome × List Segment
  | [], opened, st => (.next st, opened)
  | seg :: later, opened, st =>
      if endsBefore fromLsn later then scanFiles fn fromLsn later opened st
      else
        match scanFile fn fromLsn seg.bytes 0 st with
        | .next st => scanFiles fn fromLsn later (opened ++ [seg]) st
        | ended => (ended, opened ++ [seg])

/-- `OpLog::Scan`, and the files that it opened. -/
def scanLog (fn : Callback) (fromLsn : Nat) (segs : List Segment) : Outcome × List Segment :=
  scanFiles fn fromLsn segs [] ⟨[], fromLsn, 0, false⟩

/-- One step of the loop, by what is found. -/
theorem scanFile_cases (fn : Callback) (fromLsn : Nat) (st : ScanState) {pos : Nat}
    {file : List UInt8} (hpos : pos ≤ file.length) :
    scanFile fn fromLsn file pos st =
        .next { st with droppedBytes := st.droppedBytes + (file.length - pos) } ∧
        getRecord (file.drop pos) = none ∨
      ∃ rec next, pos < next ∧ next ≤ file.length ∧
        getRecord (file.drop pos) = some (rec, file.drop next) ∧ Intact rec file ∧
        scanFile fn fromLsn file pos st =
          if rec.lsn < fromLsn then scanFile fn fromLsn file next st
          else if rec.lsn ≠ st.expected then .returned { st with gap := true }
          else if fn st.delivered rec then
            scanFile fn fromLsn file next
              { st with delivered := st.delivered ++ [rec], expected := st.expected + 1 }
          else .returned { st with delivered := st.delivered ++ [rec] } := by
  rcases recordAt_cases hpos with ⟨htorn, hnone⟩ | ⟨rec, next, hrecord, hlt, hle, hread, hintact⟩
  · refine .inl ⟨?_, hnone⟩
    rw [scanFile]
    split
    · split
      · rename_i houtside
        rw [htorn] at houtside
        cases houtside
      · rfl
      · rename_i hfound
        rw [htorn] at hfound
        cases hfound
    · rfl
  · refine .inr ⟨rec, next, hlt, hle, hread, hintact, ?_⟩
    rw [scanFile, dif_pos (Nat.lt_of_lt_of_le hlt hle)]
    split
    · rename_i houtside
      rw [hrecord] at houtside
      cases houtside
    · rename_i hfound
      rw [hrecord] at hfound
      cases hfound
    · rename_i found behind hfound
      rw [hrecord] at hfound
      cases hfound
      rfl

/-! The same scan over lists -/

/-- A scan stops for good at a missing lsn. -/
def Outcome.ofState (st : ScanState) : Outcome := if st.gap then .returned st else .next st

theorem scanFile_accepting {fromLsn pos : Nat} {file : List UInt8} (hpos : pos ≤ file.length)
    {fuel : Nat} (hfuel : file.length - pos < fuel) {st : ScanState} (hgap : st.gap = false) :
    scanFile (fun _ _ => true) fromLsn file pos st =
      .ofState (scanSegment fromLsn fuel (file.drop pos) st) := by
  induction fuel generalizing pos st with
  | zero => omega
  | succ fuel ih =>
      rcases scanFile_cases (fun _ _ => true) fromLsn st hpos with
        ⟨hscan, hread⟩ | ⟨rec, next, hlt, hle, hread, -, hscan⟩
      · rw [hscan, scanSegment, hread]
        simp [Outcome.ofState, hgap, List.length_drop]
      · rw [hscan, scanSegment, hread]
        simp only
        split
        · exact ih hle (by omega) hgap
        · split
          · rfl
          · exact ih hle (by omega) hgap

/-- With a callback that accepts every record, the scan of the files is the scan of the
segments. -/
theorem scanFiles_accepting {fromLsn : Nat} {segs : List Segment} (opened : List Segment)
    {st : ScanState} (hgap : st.gap = false) :
    (scanFiles (fun _ _ => true) fromLsn segs opened st).1 =
      .ofState (scanSegments fromLsn segs st) := by
  induction segs generalizing opened st with
  | nil => simp [scanFiles, scanSegments, Outcome.ofState, hgap]
  | cons seg later ih =>
      rw [scanFiles, scanSegments]
      split
      · exact ih opened hgap
      · rw [scanFile_accepting (Nat.zero_le _) (Nat.lt_succ_self _) hgap, List.drop_zero,
          Nat.sub_zero]
        generalize scanSegment fromLsn (seg.bytes.length + 1) seg.bytes st = scanned
        cases hscanned : scanned.gap with
        | true => simp [Outcome.ofState, hscanned]
        | false =>
            have hnext : Outcome.ofState scanned = .next scanned := by
              simp [Outcome.ofState, hscanned]
            simp only [hnext, hscanned, Bool.false_eq_true, if_false]
            exact ih _ hscanned

/-! What a scan keeps -/

/-- What is true of a scan that has opened the files of `opened`. -/
structure ScanState.Sound (fromLsn : Nat) (opened : List Segment) (st : ScanState) : Prop where
  lsns : st.delivered.map OpRecord.lsn = List.range' fromLsn st.delivered.length
  intact : ∀ rec ∈ st.delivered, ∃ seg ∈ opened, Intact rec seg.bytes
  dropped : st.droppedBytes ≤ (opened.map fun seg => seg.bytes.length).sum

/-- A scan that goes on also knows the next lsn. -/
def Outcome.Sound (fromLsn : Nat) (opened : List Segment) : Outcome → Prop
  | .outside => False
  | .returned st => st.Sound fromLsn opened
  | .next st => st.Sound fromLsn opened ∧ st.expected = fromLsn + st.delivered.length

theorem sound_scanFile (fn : Callback) {fromLsn : Nat} {opened : List Segment}
    (seg : Segment) {pos : Nat} (hpos : pos ≤ seg.bytes.length) {st : ScanState}
    (hlsns : st.delivered.map OpRecord.lsn = List.range' fromLsn st.delivered.length)
    (hexpected : st.expected = fromLsn + st.delivered.length)
    (hintact : ∀ rec ∈ st.delivered, ∃ found ∈ opened ++ [seg], Intact rec found.bytes)
    (hdropped : st.droppedBytes ≤ (opened.map fun seg => seg.bytes.length).sum) :
    (scanFile fn fromLsn seg.bytes pos st).Sound fromLsn (opened ++ [seg]) := by
  have hsum : ((opened ++ [seg]).map fun seg => seg.bytes.length).sum =
      (opened.map fun seg => seg.bytes.length).sum + seg.bytes.length := by
    simp
  have hbound : st.droppedBytes ≤
      ((opened ++ [seg]).map fun seg => seg.bytes.length).sum := by omega
  induction hremaining : seg.bytes.length - pos using Nat.strong_induction_on
    generalizing pos st with
  | _ remaining ih =>
      rcases scanFile_cases fn fromLsn st hpos with
        ⟨hscan, -⟩ | ⟨rec, next, hlt, hle, -, hfound, hscan⟩
      · rw [hscan]
        exact ⟨⟨hlsns, hintact, by simp only [hsum]; omega⟩, hexpected⟩
      · rw [hscan]
        split
        · exact ih _ (by omega) hle hlsns hexpected hintact hdropped hbound rfl
        · split
          · exact ⟨hlsns, hintact, hbound⟩
          · rename_i hlsn
            have hlsns' : (st.delivered ++ [rec]).map OpRecord.lsn =
                List.range' fromLsn (st.delivered ++ [rec]).length := by
              rw [List.map_append, hlsns, List.length_append, List.length_singleton,
                List.range'_concat, List.map_singleton, not_not.mp hlsn, hexpected, Nat.one_mul]
            have hintact' : ∀ other ∈ st.delivered ++ [rec],
                ∃ found ∈ opened ++ [seg], Intact other found.bytes := by
              intro other hother
              rcases List.mem_append.mp hother with hold | hnew
              · exact hintact other hold
              · rw [List.mem_singleton.mp hnew]
                exact ⟨seg, by simp, hfound⟩
            split
            · refine ih _ (by omega) hle hlsns' ?_ hintact' hdropped hbound rfl
              rw [List.length_append, List.length_singleton, hexpected, Nat.add_assoc]
            · exact ⟨hlsns', hintact', hbound⟩

theorem sound_scanFiles (fn : Callback) {fromLsn : Nat} (segs : List Segment)
    {opened : List Segment}
    {st : ScanState} (hsound : st.Sound fromLsn opened)
    (hexpected : st.expected = fromLsn + st.delivered.length) :
    ∃ read, read.Sublist segs ∧ (scanFiles fn fromLsn segs opened st).2 = opened ++ read ∧
      (scanFiles fn fromLsn segs opened st).1.Sound fromLsn (opened ++ read) := by
  induction segs generalizing opened st with
  | nil =>
      refine ⟨[], List.Sublist.refl _, by simp [scanFiles], ?_⟩
      rw [List.append_nil]
      exact ⟨hsound, hexpected⟩
  | cons seg later ih =>
      rw [scanFiles]
      split
      · obtain ⟨read, hread, hopened, hend⟩ := ih hsound hexpected
        exact ⟨read, hread.cons _, hopened, hend⟩
      · have hfile := sound_scanFile fn seg (Nat.zero_le _) hsound.lsns
          hexpected (fun rec hrec => by
            obtain ⟨found, hfound, hintact⟩ := hsound.intact rec hrec
            exact ⟨found, by simp [hfound], hintact⟩) hsound.dropped
        split
        · rename_i st' hscan
          rw [hscan] at hfile
          obtain ⟨read, hread, hopened, hend⟩ := ih hfile.1 hfile.2
          rw [List.append_assoc, List.singleton_append] at hopened hend
          exact ⟨seg :: read, hread.cons_cons _, hopened, hend⟩
        · exact ⟨[seg], by simp, rfl, hfile⟩

/-- Whatever the files hold, a scan ends without a read outside a body.  The records it
hands out count up from the first lsn, each lies intact in a file, and the bytes it skips
are bytes of the files it opened. -/
theorem scanLog_safe (fn : Callback) (fromLsn : Nat) (segs : List Segment) :
    ∃ st opened, opened.Sublist segs ∧
      (scanLog fn fromLsn segs = (.next st, opened) ∨
        scanLog fn fromLsn segs = (.returned st, opened)) ∧ st.Sound fromLsn opened := by
  have hstart : ScanState.Sound fromLsn [] ⟨[], fromLsn, 0, false⟩ :=
    ⟨rfl, by simp, Nat.le_refl 0⟩
  obtain ⟨read, hread, hopened, hend⟩ :=
    sound_scanFiles fn segs hstart rfl
  rw [List.nil_append] at hopened hend
  cases hscan : (scanFiles fn fromLsn segs [] ⟨[], fromLsn, 0, false⟩).1 with
  | outside =>
      rw [hscan] at hend
      exact hend.elim
  | returned st =>
      rw [hscan] at hend
      exact ⟨st, read, hread, .inr (Prod.ext hscan hopened), hend⟩
  | next st =>
      rw [hscan] at hend
      exact ⟨st, read, hread, .inl (Prod.ext hscan hopened), hend.1⟩

end AsterVec.OpLog

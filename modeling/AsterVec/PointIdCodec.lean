import AsterVec.PointIds
import Mathlib.Tactic.IntervalCases

/-!
Decoding of stored ids.  Every byte is read by its position, so a read past the end of the
input shows.
-/

namespace AsterVec.PointIds

open AsterVec.BigEndian

/-- What `Decode` makes of a byte string; `outside` is a read past its end. -/
inductive Decoded where
  | outside
  | refused
  | id (value : PointId)
deriving DecidableEq

/-- The byte at position `i`. -/
def readByte (bytes : List UInt8) (i : Nat) (follow : UInt8 → Decoded) : Decoded :=
  match bytes[i]? with
  | none => .outside
  | some byte => follow byte

/-- The last `rest` of the nine bytes of an integer. -/
def decodeInt (bytes : List UInt8) : Nat → UInt64 → Decoded
  | 0, v => .id (.int v)
  | rest + 1, v =>
      readByte bytes (8 - rest) fun byte => decodeInt bytes rest (v <<< 8 ||| byte.toUInt64)

def kHex : List UInt8 :=
  [0x30, 0x31, 0x32, 0x33, 0x34, 0x35, 0x36, 0x37, 0x38, 0x39,
    0x61, 0x62, 0x63, 0x64, 0x65, 0x66]

def kHexAt (v : UInt8) : UInt8 := kHex.getD v.toNat 0

/-- The last `rest` of the seventeen bytes of a UUID. -/
def decodeUuid (bytes : List UInt8) : Nat → List UInt8 → Decoded
  | 0, s => .id (.str s)
  | rest + 1, s =>
      let i := 16 - rest
      let hyphens := if i == 5 || i == 7 || i == 9 || i == 11 then [hyphen] else []
      readByte bytes i fun b =>
        decodeUuid bytes rest (s ++ (hyphens ++ [kHexAt (b >>> 4), kHexAt (b &&& 0x0F)]))

def decode (bytes : List UInt8) : Decoded :=
  if bytes = [] then .refused
  else
    readByte bytes 0 fun tag =>
      if tag = kIntTag then if bytes.length ≠ 9 then .refused else decodeInt bytes 8 0
      else if tag = kStrTag then .id (.str (bytes.drop 1))
      else if tag = kUuidTag then
        if bytes.length ≠ 17 then .refused else decodeUuid bytes 16 []
      else .refused

/-! Reads -/

theorem readByte_inside {bytes : List UInt8} {i : Nat} {follow : UInt8 → Decoded}
    (hi : i < bytes.length) : readByte bytes i follow = follow bytes[i] := by
  rw [readByte, List.getElem?_eq_getElem hi]

theorem decodeInt_inside {bytes : List UInt8} (hlen : bytes.length = 9) {rest : Nat}
    (hrest : rest ≤ 8) (v : UInt64) : decodeInt bytes rest v ≠ .outside := by
  induction rest generalizing v with
  | zero => exact fun h => by cases h
  | succ rest ih =>
      rw [decodeInt, readByte_inside (by omega)]
      exact ih (by omega) _

theorem decodeUuid_inside {bytes : List UInt8} (hlen : bytes.length = 17) {rest : Nat}
    (hrest : rest ≤ 16) (s : List UInt8) : decodeUuid bytes rest s ≠ .outside := by
  induction rest generalizing s with
  | zero => exact fun h => by cases h
  | succ rest ih =>
      simp only [decodeUuid]
      rw [readByte_inside (by omega)]
      exact ih (by omega) _

/-- No input makes `Decode` read past its end. -/
theorem decode_inside (bytes : List UInt8) : decode bytes ≠ .outside := by
  unfold decode
  split
  · exact fun h => by cases h
  · rename_i hne
    rw [readByte_inside (List.length_pos_iff.mpr hne)]
    split
    · split
      · exact fun h => by cases h
      · rename_i hlen
        exact decodeInt_inside (not_not.mp hlen) (Nat.le_refl 8) 0
    · split
      · exact fun h => by cases h
      · split
        · split
          · exact fun h => by cases h
          · rename_i hlen
            exact decodeUuid_inside (not_not.mp hlen) (Nat.le_refl 16) []
        · exact fun h => by cases h

/-! Integers -/

theorem shift_or_eq (value : Nat) (byte : UInt8) :
    UInt64.ofNat value <<< 8 ||| byte.toUInt64 = UInt64.ofNat (256 * value + byte.toNat) := by
  have hbyte : byte.toNat < 2 ^ 8 := byte.toNat_lt
  have hhigh : (value % 2 ^ 64) <<< 8 % 2 ^ 64 = (value % 2 ^ 56) <<< 8 := by
    rw [Nat.shiftLeft_eq, Nat.shiftLeft_eq]
    omega
  have hshift : (UInt64.ofNat value <<< 8).toNat = (value % 2 ^ 56) <<< 8 := by
    rw [UInt64.toNat_shiftLeft, UInt64.toNat_ofNat']
    exact hhigh
  apply UInt64.toNat_inj.mp
  rw [UInt64.toNat_or, hshift, UInt8.toNat_toUInt64, UInt64.toNat_ofNat',
    ← Nat.shiftLeft_add_eq_or_of_lt hbyte, Nat.shiftLeft_eq]
  omega

theorem decodeInt_append {front rest : List UInt8} (hlen : front.length + rest.length = 9)
    (hpos : 1 ≤ front.length) (value : Nat) :
    decodeInt (front ++ rest) rest.length (UInt64.ofNat value) =
      .id (.int (UInt64.ofNat
        (rest.foldl (fun value byte => 256 * value + byte.toNat) value))) := by
  induction rest generalizing front value with
  | nil => rfl
  | cons byte rest ih =>
      rw [List.length_cons] at hlen
      have hat : (front ++ byte :: rest)[8 - rest.length]? = some byte := by
        have hfront : 8 - rest.length = front.length := by omega
        rw [hfront, List.getElem?_append_right (Nat.le_refl _), Nat.sub_self]
        rfl
      rw [List.length_cons, decodeInt, readByte, hat]
      simp only
      rw [shift_or_eq, List.foldl_cons, List.append_cons]
      exact ih (by rw [List.length_append, List.length_singleton]; omega)
        (by rw [List.length_append, List.length_singleton]; omega) _

theorem decode_int (value : UInt64) : decode (encode (.int value)) = .id (.int value) := by
  have hlen := putBE_length 8 value.toNat
  have hvalue := @valueBE_putBE 8 _ value.toNat_lt
  unfold valueBE at hvalue
  change (if (kIntTag :: putBE 8 value.toNat).length ≠ 9 then .refused
    else decodeInt (kIntTag :: putBE 8 value.toNat) 8 0) = _
  rw [List.length_cons, hlen, if_neg (by decide)]
  have hread := @decodeInt_append [kIntTag] (putBE 8 value.toNat)
    (by rw [hlen]; rfl) (Nat.le_refl 1) 0
  rw [hlen, hvalue, UInt64.ofNat_toNat] at hread
  exact hread

/-! UUIDs -/

theorem kHexAt_eq : ∀ n : Fin 16, kHexAt (UInt8.ofNat n) = hexDigit (UInt8.ofNat n) := by
  decide +kernel

theorem kHexAt_halves (b : UInt8) :
    kHexAt (b >>> 4) = hexDigit (b >>> 4) ∧
      kHexAt (b &&& 0x0F) = hexDigit (b &&& 0x0F) := by
  have hdigit : ∀ v : UInt8, v.toNat < 16 → kHexAt v = hexDigit v := by
    intro v hv
    have hspec := kHexAt_eq ⟨v.toNat, hv⟩
    rwa [UInt8.ofNat_toNat] at hspec
  refine ⟨hdigit _ ?_, hdigit _ ?_⟩
  · have hb := b.toNat_lt
    rw [UInt8.toNat_shiftRight]
    change b.toNat >>> 4 < 16
    rw [Nat.shiftRight_eq_div_pow]
    omega
  · rw [UInt8.toNat_and]
    exact Nat.lt_of_le_of_lt Nat.and_le_right (by decide)

/-- The characters of the last `rest` bytes of a UUID, with the hyphens among them. -/
def uuidChars (rest : Nat) : Nat := 2 * rest + ([6, 8, 10, 12].filter (· ≤ rest)).length

/-- The hyphens stand in front of the bytes 5, 7, 9 and 11. -/
theorem hyphenate_uuidChars {rest : Nat} (hrest : rest < 16) (high low : UInt8)
    (digits : List UInt8) :
    hyphenate (36 - uuidChars (rest + 1)) (uuidChars (rest + 1)) (high :: low :: digits) =
      (if 16 - rest == 5 || 16 - rest == 7 || 16 - rest == 9 || 16 - rest == 11
        then [hyphen] else []) ++
        [high, low] ++ hyphenate (36 - uuidChars rest) (uuidChars rest) digits := by
  interval_cases rest <;> rfl

theorem decodeUuid_append {front rest : List UInt8} (hlen : front.length + rest.length = 17)
    (hpos : 1 ≤ front.length) (s : List UInt8) :
    decodeUuid (front ++ rest) rest.length s = .id (.str (s ++
      hyphenate (36 - uuidChars rest.length) (uuidChars rest.length) (unpackHex rest))) := by
  induction rest generalizing front s with
  | nil =>
      rw [List.length_nil, decodeUuid]
      exact congrArg (Decoded.id <| PointId.str ·) (List.append_nil s).symm
  | cons byte rest ih =>
      rw [List.length_cons] at hlen
      have hat : (front ++ byte :: rest)[16 - rest.length]? = some byte := by
        have hfront : 16 - rest.length = front.length := by omega
        rw [hfront, List.getElem?_append_right (Nat.le_refl _), Nat.sub_self]
        rfl
      rw [List.length_cons, decodeUuid]
      simp only [readByte, hat]
      rw [List.append_cons, ih (by rw [List.length_append, List.length_singleton]; omega)
        (by rw [List.length_append, List.length_singleton]; omega), unpackHex,
        hyphenate_uuidChars (by omega), (kHexAt_halves byte).1, (kHexAt_halves byte).2]
      simp only [List.append_assoc]

theorem decodeUuid_eq {payload : List UInt8} (hlen : payload.length = 16) :
    decodeUuid (kUuidTag :: payload) 16 [] =
      .id (.str (hyphenate 0 36 (unpackHex payload))) := by
  have hread := @decodeUuid_append [kUuidTag] payload (by rw [hlen]; rfl) (Nat.le_refl 1) []
  rw [hlen] at hread
  exact hread

theorem packHex_length (n : Nat) {digits : List UInt8} (hlen : digits.length = 2 * n) :
    (packHex digits).length = n := by
  induction n generalizing digits with
  | zero =>
      obtain rfl := List.length_eq_zero_iff.mp hlen
      rfl
  | succ n ih =>
      rcases digits with _ | ⟨high, _ | ⟨low, rest⟩⟩
      · cases hlen
      · change 1 = 2 * (n + 1) at hlen
        omega
      · rw [packHex, List.length_cons, ih]
        simp only [List.length_cons] at hlen
        omega

theorem packHex_filter_length {s : List UInt8} (hs : isCanonicalUuid s = true) :
    (packHex (s.filter (· ≠ hyphen))).length = 16 := by
  rw [isCanonicalUuid, Bool.and_eq_true] at hs
  have hlen : s.length = 36 := by simpa using hs.1
  apply packHex_length
  rw [filter_length_of_isUuidFrom hs.2, hlen]
  decide

theorem decode_str (s : List UInt8) : decode (encode (.str s)) = .id (.str s) := by
  simp only [encode]
  split
  · rename_i hs
    have hlen := packHex_filter_length hs
    change (if (kUuidTag :: packHex (s.filter (· ≠ hyphen))).length ≠ 17 then .refused
      else decodeUuid (kUuidTag :: packHex (s.filter (· ≠ hyphen))) 16 []) = _
    rw [List.length_cons, hlen, if_neg (by decide), decodeUuid_eq hlen,
      hyphenate_unpackHex hs]
  · rfl

/-! The codec -/

theorem decode_encode (p : PointId) : decode (encode p) = .id p := by
  cases p with
  | int value => exact decode_int value
  | str s => exact decode_str s

theorem sortKey_encode_lt {a b : UInt64} (hlt : a < b) :
    sortKey (encode (.int a)) < sortKey (encode (.int b)) := by
  have hbound : ∀ v : UInt64, v.toNat < 256 ^ 8 := UInt64.toNat_lt
  have hdigits : a.toNat % 256 ^ 8 < b.toNat % 256 ^ 8 := by
    rw [Nat.mod_eq_of_lt (hbound a), Nat.mod_eq_of_lt (hbound b)]
    exact hlt
  exact .cons (sortKey_putBE_lt hdigits)

/-- Integers are stored in their order. -/
theorem sortKey_encode_lt_iff (a b : UInt64) :
    sortKey (encode (.int a)) < sortKey (encode (.int b)) ↔ a < b := by
  refine ⟨fun hlt => ?_, sortKey_encode_lt⟩
  rcases Nat.lt_trichotomy a.toNat b.toNat with hab | hab | hba
  · exact hab
  · rw [UInt64.toNat_inj.mp hab] at hlt
    exact absurd hlt (lt_irrefl _)
  · exact absurd hlt (lt_asymm (sortKey_encode_lt hba))

/-- Every id is read back as it was stored, different ids are stored differently, integers
in their order, and no input is read past its end. -/
theorem pointId_codec :
    (∀ p, decode (encode p) = .id p) ∧ Function.Injective encode ∧
      (∀ a b : UInt64, a < b ↔ sortKey (encode (.int a)) < sortKey (encode (.int b))) ∧
      (∀ bytes, decode bytes ≠ .outside) ∧
      ∀ bytes ∈ Set.range encode, ∃ p, decode bytes = .id p ∧ encode p = bytes := by
  refine ⟨decode_encode, fun _ _ => encode_injective,
    fun a b => (sortKey_encode_lt_iff a b).symm, decode_inside, ?_⟩
  rintro _ ⟨p, rfl⟩
  exact ⟨p, decode_encode p, rfl⟩

end AsterVec.PointIds

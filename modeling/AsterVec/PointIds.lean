import AsterVec.BigEndian

/-!
The caller's ids of a keyed store and the byte strings they are stored as.
-/

namespace AsterVec.PointIds

open AsterVec.BigEndian

inductive PointId where
  | int (value : UInt64)
  | str (value : List UInt8)
deriving DecidableEq

def kIntTag : UInt8 := 0x01
def kStrTag : UInt8 := 0x02
def kUuidTag : UInt8 := 0x03

def hyphen : UInt8 := 0x2D

/-- Positions of the hyphens in a UUID. -/
def isHyphenAt (i : Nat) : Bool := i == 8 || i == 13 || i == 18 || i == 23

def isHexDigit (c : UInt8) : Bool :=
  decide (0x30 ≤ c ∧ c ≤ 0x39) || decide (0x61 ≤ c ∧ c ≤ 0x66)

def hexVal (c : UInt8) : UInt8 := if c ≤ 0x39 then c - 0x30 else c - 0x61 + 10

/-- The characters from position `i` on are those of a canonical UUID. -/
def isUuidFrom : Nat → List UInt8 → Bool
  | _, [] => true
  | i, c :: rest =>
      (if isHyphenAt i then c == hyphen else isHexDigit c) && isUuidFrom (i + 1) rest

def isCanonicalUuid (s : List UInt8) : Bool := s.length == 36 && isUuidFrom 0 s

/-- Two hex digits give a byte. -/
def packHex : List UInt8 → List UInt8
  | high :: low :: rest => (hexVal high <<< 4 ||| hexVal low) :: packHex rest
  | _ => []

def encode : PointId → List UInt8
  | .int value => kIntTag :: putBE 8 value.toNat
  | .str s =>
      if isCanonicalUuid s then kUuidTag :: packHex (s.filter (· ≠ hyphen))
      else kStrTag :: s

/-! Different ids are stored differently -/

/-- The hyphens put back, from position `i` on. -/
def hyphenate : Nat → Nat → List UInt8 → List UInt8
  | _, 0, _ => []
  | i, length + 1, digits =>
      if isHyphenAt i then hyphen :: hyphenate (i + 1) length digits
      else digits.take 1 ++ hyphenate (i + 1) length (digits.drop 1)

theorem ne_hyphen_of_isHexDigit {c : UInt8} (hdigit : isHexDigit c = true) :
    c ≠ hyphen := by
  rintro rfl
  revert hdigit
  decide

theorem hyphenate_filter {i : Nat} {s : List UInt8} (hs : isUuidFrom i s = true) :
    hyphenate i s.length (s.filter (· ≠ hyphen)) = s := by
  induction s generalizing i with
  | nil => rfl
  | cons c s ih =>
      rw [isUuidFrom, Bool.and_eq_true] at hs
      obtain ⟨hc, hrest⟩ := hs
      rw [List.length_cons, hyphenate]
      split at hc
      · rename_i hat
        have hhyphen : c = hyphen := by simpa using hc
        rw [if_pos hat, hhyphen, List.filter_cons_of_neg (by simp), ih hrest]
      · rename_i hat
        rw [if_neg hat,
          List.filter_cons_of_pos (by simpa using ne_hyphen_of_isHexDigit hc)]
        simp only [List.take_succ_cons, List.take_zero, List.drop_succ_cons,
          List.drop_zero, List.singleton_append]
        rw [ih hrest]

theorem hexDigits_of_isUuidFrom {i : Nat} {s : List UInt8} (hs : isUuidFrom i s = true) :
    ∀ c ∈ s.filter (· ≠ hyphen), isHexDigit c = true := by
  induction s generalizing i with
  | nil => simp
  | cons c s ih =>
      rw [isUuidFrom, Bool.and_eq_true] at hs
      obtain ⟨hc, hrest⟩ := hs
      intro x hx
      rw [List.mem_filter] at hx
      obtain ⟨hmem, hne⟩ := hx
      rcases List.mem_cons.mp hmem with rfl | htail
      · split at hc
        · exact absurd (by simpa using hc) (by simpa using hne)
        · exact hc
      · exact ih hrest x (List.mem_filter.mpr ⟨htail, hne⟩)

/-- The digit of a value below 16. -/
def hexDigit (v : UInt8) : UInt8 := if v < 10 then v + 0x30 else v - 10 + 0x61

theorem hexDigit_hexVal_fin : ∀ n : Fin 256, isHexDigit (UInt8.ofNat n) = true →
    hexDigit (hexVal (UInt8.ofNat n)) = UInt8.ofNat n ∧ hexVal (UInt8.ofNat n) < 16 := by
  decide +kernel

theorem hexVal_spec {c : UInt8} (hdigit : isHexDigit c = true) :
    hexDigit (hexVal c) = c ∧ hexVal c < 16 := by
  have hc : UInt8.ofNat (⟨c.toNat, c.toNat_lt⟩ : Fin 256) = c := UInt8.ofNat_toNat
  have hspec := hexDigit_hexVal_fin ⟨c.toNat, c.toNat_lt⟩
  rw [hc] at hspec
  exact hspec hdigit

theorem halves_fin : ∀ x y : Fin 16,
    (UInt8.ofNat x <<< 4 ||| UInt8.ofNat y) >>> 4 = UInt8.ofNat x ∧
      (UInt8.ofNat x <<< 4 ||| UInt8.ofNat y) &&& 0x0F = UInt8.ofNat y := by
  decide +kernel

theorem halves {x y : UInt8} (hx : x < 16) (hy : y < 16) :
    (x <<< 4 ||| y) >>> 4 = x ∧ (x <<< 4 ||| y) &&& 0x0F = y := by
  have hspec := halves_fin ⟨x.toNat, hx⟩ ⟨y.toNat, hy⟩
  simpa only [UInt8.ofNat_toNat] using hspec

/-- The two digits of each byte. -/
def unpackHex : List UInt8 → List UInt8
  | [] => []
  | byte :: rest => hexDigit (byte >>> 4) :: hexDigit (byte &&& 0x0F) :: unpackHex rest

theorem unpackHex_packHex (n : Nat) {digits : List UInt8} (hlen : digits.length = 2 * n)
    (hdigits : ∀ c ∈ digits, isHexDigit c = true) :
    unpackHex (packHex digits) = digits := by
  induction n generalizing digits with
  | zero =>
      obtain rfl := List.length_eq_zero_iff.mp hlen
      rfl
  | succ n ih =>
      rcases digits with _ | ⟨high, _ | ⟨low, rest⟩⟩
      · cases hlen
      · change 1 = 2 * (n + 1) at hlen
        omega
      · rw [List.forall_mem_cons, List.forall_mem_cons] at hdigits
        obtain ⟨hhigh, hlow, hrest⟩ := hdigits
        have hlen' : rest.length = 2 * n := by
          simp only [List.length_cons] at hlen
          omega
        obtain ⟨hbackHigh, hltHigh⟩ := hexVal_spec hhigh
        obtain ⟨hbackLow, hltLow⟩ := hexVal_spec hlow
        obtain ⟨hupper, hlower⟩ := halves hltHigh hltLow
        rw [packHex, unpackHex, hupper, hlower, hbackHigh, hbackLow, ih hlen' hrest]

theorem filter_length_of_isUuidFrom {i : Nat} {s : List UInt8}
    (hs : isUuidFrom i s = true) :
    (s.filter (· ≠ hyphen)).length =
      ((List.range' i s.length).filter fun j => !isHyphenAt j).length := by
  induction s generalizing i with
  | nil => rfl
  | cons c s ih =>
      rw [isUuidFrom, Bool.and_eq_true] at hs
      obtain ⟨hc, hrest⟩ := hs
      rw [List.length_cons, List.range'_succ]
      split at hc
      · rename_i hat
        have hhyphen : c = hyphen := by simpa using hc
        rw [hhyphen, List.filter_cons_of_neg (by simp),
          List.filter_cons_of_neg (by simp [hat]), ih hrest]
      · rename_i hat
        rw [List.filter_cons_of_pos (by simpa using ne_hyphen_of_isHexDigit hc),
          List.filter_cons_of_pos (by simpa using hat), List.length_cons, List.length_cons,
          ih hrest]

/-- A UUID is recovered from its bytes. -/
theorem hyphenate_unpackHex {s : List UInt8} (hs : isCanonicalUuid s = true) :
    hyphenate 0 36 (unpackHex (packHex (s.filter (· ≠ hyphen)))) = s := by
  rw [isCanonicalUuid, Bool.and_eq_true] at hs
  have hlen : s.length = 36 := by simpa using hs.1
  have hdigits : (s.filter (· ≠ hyphen)).length = 2 * 16 := by
    rw [filter_length_of_isUuidFrom hs.2, hlen]
    decide
  rw [unpackHex_packHex 16 hdigits (hexDigits_of_isUuidFrom hs.2), ← hlen,
    hyphenate_filter hs.2]

theorem encode_injective {a b : PointId} (hsame : encode a = encode b) : a = b := by
  cases a with
  | int x =>
      cases b with
      | int y =>
          have hvalue := putBE_injective x.toNat_lt y.toNat_lt
            (List.tail_eq_of_cons_eq hsame)
          rw [UInt64.toNat_inj.mp hvalue]
      | str t =>
          exfalso
          simp only [encode] at hsame
          split at hsame
          · exact absurd (List.head_eq_of_cons_eq hsame) (by decide)
          · exact absurd (List.head_eq_of_cons_eq hsame) (by decide)
  | str s =>
      cases b with
      | int y =>
          exfalso
          simp only [encode] at hsame
          split at hsame
          · exact absurd (List.head_eq_of_cons_eq hsame) (by decide)
          · exact absurd (List.head_eq_of_cons_eq hsame) (by decide)
      | str t =>
          simp only [encode] at hsame
          split at hsame <;> rename_i hs <;> split at hsame <;> rename_i ht
          · rw [← hyphenate_unpackHex hs, List.tail_eq_of_cons_eq hsame,
              hyphenate_unpackHex ht]
          · exact absurd (List.head_eq_of_cons_eq hsame) (by decide)
          · exact absurd (List.head_eq_of_cons_eq hsame) (by decide)
          · rw [List.tail_eq_of_cons_eq hsame]

end AsterVec.PointIds

import Mathlib.Data.List.Lex
import Mathlib.Tactic.Ring

/-!
Fixed-width big-endian fields, whose order as byte strings is the order of the numbers.
-/

namespace AsterVec.BigEndian

/-- The `width` low bytes of `value`, most significant byte first. -/
def putBE : Nat → Nat → List UInt8
  | 0, _ => []
  | width + 1, value => UInt8.ofNat (value / 256 ^ width) :: putBE width value

@[simp] theorem putBE_length (width value : Nat) : (putBE width value).length = width := by
  induction width with
  | zero => rfl
  | succ width ih => simp [putBE, ih]

/-- The number whose bytes are `bytes`, most significant byte first. -/
def valueBE (bytes : List UInt8) : Nat :=
  bytes.foldl (fun value byte => 256 * value + byte.toNat) 0

theorem foldl_putBE (width value start : Nat) :
    (putBE width value).foldl (fun value byte => 256 * value + byte.toNat) start =
      256 ^ width * start + value % 256 ^ width := by
  induction width generalizing start with
  | zero => simp [putBE, Nat.mod_one]
  | succ width ih =>
      rw [putBE, List.foldl_cons, ih]
      have hbyte : (UInt8.ofNat (value / 256 ^ width)).toNat =
          value / 256 ^ width % 256 := by simp
      have hmod : value % 256 ^ (width + 1) =
          value % 256 ^ width + 256 ^ width * (value / 256 ^ width % 256) := by
        rw [Nat.pow_succ, Nat.mod_mul]
      rw [hbyte, hmod, Nat.pow_succ]
      ring

theorem valueBE_putBE {width value : Nat} (hvalue : value < 256 ^ width) :
    valueBE (putBE width value) = value := by
  unfold valueBE
  rw [foldl_putBE, Nat.mul_zero, Nat.zero_add, Nat.mod_eq_of_lt hvalue]

theorem putBE_injective {width a b : Nat} (ha : a < 256 ^ width) (hb : b < 256 ^ width)
    (hsame : putBE width a = putBE width b) : a = b := by
  rw [← valueBE_putBE ha, hsame, valueBE_putBE hb]

/-- Byte strings are ordered as unsigned bytes. -/
def sortKey (bytes : List UInt8) : List Nat := bytes.map UInt8.toNat

theorem sortKey_putBE_lt {width a b : Nat}
    (hab : a % 256 ^ width < b % 256 ^ width) :
    sortKey (putBE width a) < sortKey (putBE width b) := by
  induction width with
  | zero => simp [Nat.mod_one] at hab
  | succ width ih =>
      have hdigits : ∀ value, value % 256 ^ (width + 1) =
          value % 256 ^ width + 256 ^ width * (value / 256 ^ width % 256) := by
        intro value
        rw [Nat.pow_succ, Nat.mod_mul]
      have hhead : ∀ value, (UInt8.ofNat (value / 256 ^ width)).toNat =
          value / 256 ^ width % 256 := by simp
      have hpos : 0 < 256 ^ width := Nat.pow_pos (by decide)
      rw [hdigits a, hdigits b] at hab
      change (UInt8.ofNat (a / 256 ^ width)).toNat :: sortKey (putBE width a) <
        (UInt8.ofNat (b / 256 ^ width)).toNat :: sortKey (putBE width b)
      rw [hhead, hhead]
      rcases Nat.lt_trichotomy (a / 256 ^ width % 256) (b / 256 ^ width % 256) with
        hlt | heq | hgt
      · exact .rel hlt
      · rw [heq] at hab ⊢
        exact .cons (ih (Nat.lt_of_add_lt_add_right hab))
      · have hle := Nat.mul_le_mul_left (256 ^ width) hgt
        have hsmall := Nat.mod_lt b hpos
        rw [Nat.mul_succ] at hle
        omega

theorem sortKey_putBE_le {width a b : Nat} (ha : a < 256 ^ width) (hb : b < 256 ^ width)
    (hle : sortKey (putBE width a) ≤ sortKey (putBE width b)) : a ≤ b := by
  by_contra hlt
  refine absurd hle (not_le.mpr (sortKey_putBE_lt ?_))
  rw [Nat.mod_eq_of_lt ha, Nat.mod_eq_of_lt hb]
  omega

end AsterVec.BigEndian

import Mathlib.Tactic.IntervalCases
import AsterVec.OpLogRecords

/-!
The checksum is linear over exclusive or, and a shift of the register loses nothing.  So a
byte that is changed changes the checksum of any message it is in.
-/

namespace AsterVec.Crc32

def polynomial : BitVec 32 := 0xEDB88320#32

/-- `shiftBit` of the bits of the register. -/
def shiftBits (c : BitVec 32) : BitVec 32 :=
  (c >>> 1) ^^^ (if c.getLsbD 0 then polynomial else 0)

theorem and_one_ne_zero_iff (c : UInt32) : c &&& 1 ≠ 0 ↔ c.toBitVec.getLsbD 0 = true := by
  have hone : (c &&& 1).toBitVec =
      BitVec.setWidth 32 (BitVec.ofBool (c.toBitVec.getLsbD 0)) := by
    rw [UInt32.toBitVec_and]
    exact BitVec.and_one_eq_setWidth_ofBool_getLsbD
  rw [Ne, ← UInt32.toBitVec_inj, hone]
  cases c.toBitVec.getLsbD 0 <;> decide

theorem shiftBit_toBitVec (c : UInt32) : (shiftBit c).toBitVec = shiftBits c.toBitVec := by
  unfold shiftBit shiftBits
  by_cases hodd : c &&& 1 ≠ 0
  · rw [if_pos hodd, if_pos ((and_one_ne_zero_iff c).mp hodd), UInt32.toBitVec_xor,
      BitVec.xor_comm]
    rfl
  · rw [if_neg hodd, if_neg (mt (and_one_ne_zero_iff c).mpr hodd)]
    exact (BitVec.xor_zero).symm

theorem shiftBits_xor (a b : BitVec 32) : shiftBits (a ^^^ b) = shiftBits a ^^^ shiftBits b := by
  have hmask : (if (a ^^^ b).getLsbD 0 then polynomial else 0) =
      (if a.getLsbD 0 then polynomial else 0) ^^^ (if b.getLsbD 0 then polynomial else 0) := by
    rw [BitVec.getLsbD_xor]
    cases a.getLsbD 0 <;> cases b.getLsbD 0 <;> decide
  unfold shiftBits
  rw [hmask, BitVec.ushiftRight_xor_distrib]
  ac_rfl

theorem shiftBit_xor (a b : UInt32) : shiftBit (a ^^^ b) = shiftBit a ^^^ shiftBit b := by
  rw [← UInt32.toBitVec_inj, UInt32.toBitVec_xor, shiftBit_toBitVec, shiftBit_toBitVec,
    shiftBit_toBitVec, UInt32.toBitVec_xor, shiftBits_xor]

/-- The top bit of the polynomial tells whether the bit that went out was set. -/
theorem shiftBits_eq_zero {c : BitVec 32} (hzero : shiftBits c = 0) : c = 0 := by
  have htop : (shiftBits c).getLsbD 31 = c.getLsbD 0 := by
    unfold shiftBits
    rw [BitVec.getLsbD_xor, BitVec.getLsbD_ushiftRight, BitVec.getLsbD_of_ge c 32 (by decide)]
    cases c.getLsbD 0 <;> decide
  have hlow : c.getLsbD 0 = false := by
    rw [← htop, hzero]
    rfl
  unfold shiftBits at hzero
  rw [hlow, if_neg Bool.false_ne_true, show (0 : BitVec 32) = 0#32 from rfl,
    BitVec.xor_zero] at hzero
  apply BitVec.eq_of_getLsbD_eq
  intro i _
  cases i with
  | zero =>
      rw [hlow]
      rfl
  | succ i =>
      have hbit := congrArg (BitVec.getLsbD · i) hzero
      simp only [BitVec.getLsbD_ushiftRight, BitVec.getLsbD_zero] at hbit
      rw [Nat.add_comm, hbit]
      simp

theorem shiftBit_injective : Function.Injective shiftBit := by
  intro a b hsame
  have hzero : shiftBits (a.toBitVec ^^^ b.toBitVec) = 0 := by
    rw [shiftBits_xor, ← shiftBit_toBitVec, ← shiftBit_toBitVec, hsame, BitVec.xor_self]
    rfl
  exact UInt32.toBitVec_inj.mp (BitVec.xor_eq_zero_iff.mp (shiftBits_eq_zero hzero))

theorem tableEntry_injective : Function.Injective tableEntry := shiftBit_injective.iterate 8

theorem shiftBit_iterate_xor (n : Nat) (a b : UInt32) :
    shiftBit^[n] (a ^^^ b) = shiftBit^[n] a ^^^ shiftBit^[n] b := by
  induction n generalizing a b with
  | zero => rfl
  | succ n ih => rw [Function.iterate_succ_apply, shiftBit_xor, ih]; rfl

/-- A register whose low byte is clear only moves down. -/
theorem tableEntry_of_high {c : UInt32} (hlow : ∀ i < 8, c.toBitVec.getLsbD i = false) :
    tableEntry c = c >>> 8 := by
  have hmoves : ∀ n ≤ 8, (shiftBit^[n] c).toBitVec = c.toBitVec >>> n := by
    intro n hn
    induction n with
    | zero => simp
    | succ n ih =>
        have heven : (c.toBitVec >>> n).getLsbD 0 = false := by
          rw [BitVec.getLsbD_ushiftRight]
          exact hlow n (by omega)
        rw [Function.iterate_succ_apply', shiftBit_toBitVec, ih (by omega), shiftBits, heven,
          if_neg Bool.false_ne_true, show (0 : BitVec 32) = 0#32 from rfl, BitVec.xor_zero,
          BitVec.shiftRight_add]
  apply UInt32.toBitVec_inj.mp
  rw [tableEntry, hmoves 8 (Nat.le_refl 8), UInt32.toBitVec_shiftRight]
  rfl

theorem tableEntry_xor (a b : UInt32) : tableEntry (a ^^^ b) = tableEntry a ^^^ tableEntry b :=
  shiftBit_iterate_xor 8 a b

/-! Whole messages -/

/-- A byte reaches the low bits of the register only. -/
theorem byte_high (byte : UInt8) {i : Nat} (hi : 8 ≤ i) :
    byte.toUInt32.toBitVec.getLsbD i = false := by
  apply Nat.testBit_lt_two_pow
  change byte.toUInt32.toNat < _
  rw [UInt8.toNat_toUInt32]
  exact Nat.lt_of_lt_of_le byte.toNat_lt (Nat.pow_le_pow_right (by decide) hi)

/-- The table is the division of the whole register by eight bits. -/
theorem step_eq (crc : UInt32) (byte : UInt8) :
    tableEntry ((crc ^^^ byte.toUInt32) &&& 0xFF) ^^^ (crc >>> 8) =
      tableEntry (crc ^^^ byte.toUInt32) := by
  have hmask : ∀ i, (0xFFFFFF00#32).getLsbD i = (decide (8 ≤ i) && decide (i < 32)) := by
    intro i
    rcases Nat.lt_or_ge i 32 with hi | hi
    · interval_cases i <;> decide
    · rw [BitVec.getLsbD_of_ge _ _ hi, decide_eq_false (Nat.not_lt.mpr hi), Bool.and_false]
  have hlow : ∀ i, (0xFF#32).getLsbD i = decide (i < 8) := by
    intro i
    rcases Nat.lt_or_ge i 32 with hi | hi
    · interval_cases i <;> decide
    · rw [BitVec.getLsbD_of_ge _ _ hi, decide_eq_false (by omega)]
  have hsplit : crc ^^^ byte.toUInt32 =
      ((crc ^^^ byte.toUInt32) &&& 0xFF) ^^^ ((crc ^^^ byte.toUInt32) &&& 0xFFFFFF00) := by
    generalize crc ^^^ byte.toUInt32 = x
    apply UInt32.toBitVec_inj.mp
    rw [UInt32.toBitVec_xor, UInt32.toBitVec_and, UInt32.toBitVec_and]
    apply BitVec.eq_of_getLsbD_eq
    intro i hi
    change _ = (x.toBitVec &&& 0xFF#32 ^^^ x.toBitVec &&& 0xFFFFFF00#32).getLsbD i
    rw [BitVec.getLsbD_xor, BitVec.getLsbD_and, BitVec.getLsbD_and, hlow, hmask]
    rcases Nat.lt_or_ge i 8 with hbelow | habove
    · simp [hbelow, Nat.not_le.mpr hbelow]
    · simp [habove, Nat.not_lt.mpr habove, hi]
  have hhigh : tableEntry ((crc ^^^ byte.toUInt32) &&& 0xFFFFFF00) = crc >>> 8 := by
    rw [tableEntry_of_high]
    · apply UInt32.toBitVec_inj.mp
      apply BitVec.eq_of_getLsbD_eq
      intro i hi
      change (((crc.toBitVec ^^^ byte.toUInt32.toBitVec) &&& 0xFFFFFF00#32) >>> 8).getLsbD i =
        (crc.toBitVec >>> 8).getLsbD i
      rw [BitVec.getLsbD_ushiftRight, BitVec.getLsbD_ushiftRight, BitVec.getLsbD_and,
        BitVec.getLsbD_xor, hmask, byte_high byte (Nat.le_add_right 8 i)]
      rcases Nat.lt_or_ge (8 + i) 32 with hinside | houtside
      · simp [hinside]
      · rw [BitVec.getLsbD_of_ge _ _ houtside]
        rfl
    · intro i hi
      change ((crc.toBitVec ^^^ byte.toUInt32.toBitVec) &&& 0xFFFFFF00#32).getLsbD i = false
      rw [BitVec.getLsbD_and, hmask, decide_eq_false (Nat.not_le.mpr hi), Bool.false_and,
        Bool.and_false]
  conv_rhs => rw [hsplit, tableEntry_xor, hhigh]

theorem update_cons (crc : UInt32) (byte : UInt8) (data : List UInt8) :
    update crc (byte :: data) = update (tableEntry (crc ^^^ byte.toUInt32)) data := by
  rw [← step_eq]
  rfl

theorem update_append (crc : UInt32) (data more : List UInt8) :
    update crc (data ++ more) = update (update crc data) more :=
  List.foldl_append

theorem xor_right_injective (mask : UInt32) : Function.Injective (· ^^^ mask) := by
  intro a b hsame
  have hcancel := congrArg (· ^^^ mask) hsame
  simpa [UInt32.xor_assoc] using hcancel

theorem update_injective (data : List UInt8) : Function.Injective (update · data) := by
  induction data with
  | nil => exact fun _ _ hsame => hsame
  | cons byte data ih =>
      intro a b hsame
      simp only [update_cons] at hsame
      exact xor_right_injective _ (tableEntry_injective (ih hsame))

/-- Messages that differ in one byte leave different registers. -/
theorem update_byte_ne (crc : UInt32) (before : List UInt8) {byte other : UInt8}
    (hne : byte ≠ other) (after : List UInt8) :
    update crc (before ++ byte :: after) ≠ update crc (before ++ other :: after) := by
  intro hsame
  rw [update_append, update_append, update_cons, update_cons] at hsame
  have hxor := tableEntry_injective (update_injective after hsame)
  rw [UInt32.xor_comm, UInt32.xor_comm _ other.toUInt32] at hxor
  have hbyte := congrArg UInt32.toNat (xor_right_injective _ hxor)
  rw [UInt8.toNat_toUInt32, UInt8.toNat_toUInt32] at hbyte
  exact hne (UInt8.toNat_inj.mp hbyte)

theorem finish_injective : Function.Injective finish := xor_right_injective _

theorem update_set_ne (crc : UInt32) {data : List UInt8} {k : Nat} {byte : UInt8}
    (hne : data.set k byte ≠ data) : update crc (data.set k byte) ≠ update crc data := by
  have hk : k < data.length := by
    by_contra hlong
    exact hne (List.set_eq_of_length_le (Nat.not_lt.mp hlong))
  have hbyte : byte ≠ data[k] := by
    rintro rfl
    exact hne (List.set_getElem_self hk)
  have hdata : data = data.take k ++ data[k] :: data.drop (k + 1) := by
    rw [← List.drop_eq_getElem_cons hk, List.take_append_drop]
  rw [List.set_eq_take_append_cons_drop, if_pos hk]
  conv_rhs => rw [hdata]
  exact update_byte_ne crc _ hbyte _

end AsterVec.Crc32

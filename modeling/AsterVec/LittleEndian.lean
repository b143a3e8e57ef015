import Mathlib.Algebra.GroupWithZero.Nat
import Mathlib.Data.List.Basic

/-!
Fixed-width little-endian fields in a byte string: the writer, a reader monad
that consumes bytes from the front, and the round trip of one with the other.
-/

namespace AsterVec.LittleEndian

/-- The `width` low bytes of `value`, least significant byte first. -/
def putLE : Nat → Nat → List UInt8
  | 0, _ => []
  | width + 1, value => UInt8.ofNat value :: putLE width (value / 256)

@[simp] theorem putLE_length (width value : Nat) :
    (putLE width value).length = width := by
  induction width generalizing value with
  | zero => rfl
  | succ width ih => simp [putLE, ih]

/-- The number whose bytes are `bytes`, least significant byte first. -/
def valueLE : List UInt8 → Nat
  | [] => 0
  | byte :: bytes => byte.toNat + 256 * valueLE bytes

theorem valueLE_putLE {width value : Nat} (hvalue : value < 256 ^ width) :
    valueLE (putLE width value) = value := by
  induction width generalizing value with
  | zero =>
      have : value = 0 := by simpa using hvalue
      subst value
      rfl
  | succ width ih =>
      have hdiv : value / 256 < 256 ^ width := by
        rw [Nat.div_lt_iff_lt_mul (by decide)]
        simpa [Nat.pow_succ] using hvalue
      rw [putLE, valueLE, ih hdiv]
      have hbyte : (UInt8.ofNat value).toNat = value % 256 := by simp
      rw [hbyte]
      omega

theorem valueLE_lt (bytes : List UInt8) :
    valueLE bytes < 256 ^ bytes.length := by
  induction bytes with
  | nil => simp [valueLE]
  | cons byte bytes ih =>
      have hbyte := byte.toNat_lt
      simp only [valueLE, List.length_cons, Nat.pow_succ]
      omega

/-- A parser that consumes bytes from the front of its input. -/
abbrev Reader (α : Type) := StateT (List UInt8) Option α

/-- Read one `width`-byte field; fails when fewer bytes are left. -/
def getLE (width : Nat) : Reader Nat := fun bytes =>
  if width ≤ bytes.length then
    some (valueLE (bytes.take width), bytes.drop width)
  else none

@[simp] theorem getLE_putLE_append {width value : Nat} (rest : List UInt8)
    (hvalue : value < 256 ^ width) :
    (getLE width).run (putLE width value ++ rest) = some (value, rest) := by
  have htake : (putLE width value ++ rest).take width = putLE width value := by
    simp
  have hdrop : (putLE width value ++ rest).drop width = rest := by
    simp
  change (if width ≤ (putLE width value ++ rest).length then _ else _) = _
  rw [if_pos (by simp), htake, hdrop, valueLE_putLE hvalue]

/-- Two's complement representation of `value` in `width` bytes. -/
def putInt (width : Nat) (value : Int) : List UInt8 :=
  putLE width (value % (256 ^ width : Nat)).toNat

/-- Read a `width`-byte two's complement number. -/
def getInt (width : Nat) : Reader Int := do
  let raw ← getLE width
  if 2 * raw < 256 ^ width then return raw else return raw - (256 ^ width : Nat)

@[simp] theorem putInt_length (width : Nat) (value : Int) :
    (putInt width value).length = width := by
  simp [putInt]

@[simp] theorem getInt_putInt_append {width : Nat} {value : Int}
    (rest : List UInt8) (hlow : -(256 ^ width : Nat) ≤ 2 * value)
    (hhigh : 2 * value < (256 ^ width : Nat)) :
    (getInt width).run (putInt width value ++ rest) = some (value, rest) := by
  have hpow : 0 < 256 ^ width := Nat.pow_pos (by decide)
  have hraw : (value % (256 ^ width : Nat)).toNat < 256 ^ width := by
    have := Int.emod_lt_of_pos value (Int.natCast_pos.mpr hpow)
    omega
  rw [getInt, putInt, StateT.run_bind, getLE_putLE_append rest hraw]
  simp only [Option.bind_eq_bind, Option.bind_some]
  generalize 256 ^ width = modulus at hlow hhigh hpow hraw ⊢
  rcases Int.lt_or_le value 0 with hneg | hpos
  · have hmod : value % (modulus : Int) = value + modulus := by
      rw [← Int.add_emod_right]
      exact Int.emod_eq_of_lt (by omega) (by omega)
    rw [hmod, if_neg (by omega), StateT.run_pure]
    simp only [Option.pure_def, Option.some.injEq, Prod.mk.injEq, and_true]
    omega
  · have hmod : value % (modulus : Int) = value :=
      Int.emod_eq_of_lt hpos (by omega)
    rw [hmod, if_pos (by omega), StateT.run_pure]
    simp only [Option.pure_def, Option.some.injEq, Prod.mk.injEq, and_true]
    omega

/-- Read `count` items, one after the other. -/
def getMany {α : Type} (read : Reader α) : Nat → Reader (List α)
  | 0 => pure []
  | count + 1 => do
      let item ← read
      let items ← getMany read count
      return item :: items

/-- Items written one after the other are read back in order. -/
theorem getMany_flatMap {α : Type} {read : Reader α}
    {put : α → List UInt8} (items : List α) (rest : List UInt8)
    (hread : ∀ item ∈ items, ∀ tail,
      read.run (put item ++ tail) = some (item, tail)) :
    (getMany read items.length).run (items.flatMap put ++ rest) =
      some (items, rest) := by
  induction items with
  | nil => rfl
  | cons item items ih =>
      have hitem := hread item (by simp) (items.flatMap put ++ rest)
      have hitems := ih fun other hother => hread other (by simp [hother])
      simp only [List.length_cons, getMany, List.flatMap_cons,
        List.append_assoc, StateT.run_bind, hitem, Option.bind_eq_bind,
        Option.bind_some, hitems, StateT.run_pure]
      rfl

/-- As many items are read as asked for, each one by `read`. -/
theorem getMany_spec {α : Type} {read : Reader α} (Good : α → Prop)
    (hread : ∀ bytes item rest, read.run bytes = some (item, rest) → Good item) :
    ∀ count bytes items rest,
      (getMany read count).run bytes = some (items, rest) →
        items.length = count ∧ ∀ item ∈ items, Good item := by
  intro count
  induction count with
  | zero =>
      intro bytes items rest hmany
      cases hmany
      exact ⟨rfl, by simp⟩
  | succ count ih =>
      intro bytes items rest hmany
      simp only [getMany, StateT.run_bind, Option.bind_eq_bind,
        Option.bind_eq_some_iff] at hmany
      obtain ⟨⟨item, tail⟩, hitem, ⟨more, tail'⟩, hmore, heq⟩ := hmany
      cases heq
      obtain ⟨hlength, hgood⟩ := ih _ _ _ hmore
      refine ⟨congrArg Nat.succ hlength, ?_⟩
      intro other hother
      rcases List.mem_cons.mp hother with rfl | hother
      · exact hread _ _ _ hitem
      · exact hgood other hother

end AsterVec.LittleEndian

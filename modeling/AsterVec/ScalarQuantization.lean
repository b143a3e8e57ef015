import Mathlib.Algebra.Order.Field.Rat
import Mathlib.Algebra.Order.Floor.Ring
import Mathlib.Data.Rat.Floor
import Mathlib.Order.Lattice
import Mathlib.Logic.Function.Iterate
import Mathlib.Tactic.Linarith
import Mathlib.Tactic.FieldSimp
import Mathlib.Tactic.Ring
import Mathlib.Tactic.Positivity

/-!
The two scalar quantizers, over exact rationals.  A component becomes one of 256 codes of
the range of its vector; ranges below a least one are widened by the encoders only.
-/

namespace AsterVec.Sq8

/-- `static_cast<int>` of a number: the part before the point. -/
def truncate (x : ℚ) : Int :=
  if 0 ≤ x then ⌊x⌋ else ⌈x⌉

/-- The `1e-10f` of the encoders. -/
def leastRange : ℚ := 1 / 10 ^ 10

theorem leastRange_pos : 0 < leastRange := by
  norm_num [leastRange]

/-- The first loop of the encoders, for the smaller of two components. -/
def minOf (first : ℚ) (rest : List ℚ) : ℚ :=
  rest.foldl (fun lo x => if x < lo then x else lo) first

def maxOf (first : ℚ) (rest : List ℚ) : ℚ :=
  rest.foldl (fun hi x => if hi < x then x else hi) first

/-- The range the encoders divide by. -/
def widened (range : ℚ) : ℚ :=
  if range < leastRange then leastRange else range

/-! ## The codec of the pages -/

/-- The bytes of a slot: the least and the greatest component, and the codes. -/
structure Record where
  minVal : ℚ
  maxVal : ℚ
  qdata : List UInt8
deriving DecidableEq

def quantize : List ℚ → Record
  | [] => ⟨0, 0, []⟩
  | first :: rest =>
      let minVal := minOf first rest
      let maxVal := maxOf first rest
      let scale := 255 / widened (maxVal - minVal)
      ⟨minVal, maxVal, (first :: rest).map fun x =>
        let normalized := (x - minVal) * scale
        let q := truncate (normalized + 1 / 2)
        UInt8.ofNat (min 255 (max 0 q)).toNat⟩

def dequantize (record : Record) : List ℚ :=
  let invScale := (record.maxVal - record.minVal) / 255
  record.qdata.map fun q => (q.toNat : ℚ) * invScale + record.minVal

/-! ## The codec of the upper-layer nodes -/

/-- The vector of a node: floats before quantization, codes after it. -/
structure NodePoint where
  point : List ℚ
  q8Data : List UInt8 := []
  qMin : ℚ := 0
  qMax : ℚ := 0
deriving DecidableEq

def quantizeNodePoint (n : NodePoint) : NodePoint :=
  match n.point with
  | [] => n
  | first :: rest =>
      let lo := minOf first rest
      let hi := maxOf first rest
      let range := widened (hi - lo)
      { point := []
        q8Data := (first :: rest).map fun x =>
          let norm := (x - lo) / range
          let q := truncate (norm * 255 + 1 / 2)
          let q := if q < 0 then 0 else if 255 < q then 255 else q
          UInt8.ofNat q.toNat
        qMin := lo
        qMax := hi }

def dequantizeNodePoint (n : NodePoint) : Option (List ℚ) :=
  if n.q8Data = [] then
    none
  else
    let range := n.qMax - n.qMin
    some (n.q8Data.map fun q => n.qMin + range * ((q.toNat : ℚ) / 255))

/-- The floats of a node, as a search and the metadata writer read them. -/
def nodePointView (n : NodePoint) : List ℚ :=
  if n.point ≠ [] then n.point else (dequantizeNodePoint n).getD []

/-- A node written to the metadata file as floats, read back and quantized again. -/
def reopenNode (n : NodePoint) : NodePoint :=
  quantizeNodePoint { point := nodePointView n }

/-! ## One component -/

/-- The code of a component at `u` of the 255 steps of its range. -/
def codeOf (u : ℚ) : UInt8 :=
  UInt8.ofNat (min 255 (max 0 (truncate (u + 1 / 2)))).toNat

theorem truncate_of_nonneg {x : ℚ} (hx : 0 ≤ x) : truncate x = ⌊x⌋ := by
  simp [truncate, hx]

theorem truncate_mono {x y : ℚ} (hxy : x ≤ y) : truncate x ≤ truncate y := by
  unfold truncate
  split_ifs with hx hy hy
  · exact Int.floor_le_floor hxy
  · exact absurd (hx.trans hxy) hy
  · have hneg : ⌈x⌉ ≤ 0 := Int.ceil_le.2 (by push_cast; linarith)
    exact hneg.trans (Int.floor_nonneg.2 hy)
  · exact Int.ceil_le_ceil hxy

theorem toNat_codeOf (u : ℚ) :
    ((codeOf u).toNat : Int) = min 255 (max 0 (truncate (u + 1 / 2))) := by
  have hlow : 0 ≤ min 255 (max 0 (truncate (u + 1 / 2))) := by omega
  have hhigh : (min 255 (max 0 (truncate (u + 1 / 2)))).toNat < 256 := by omega
  rw [codeOf, UInt8.toNat_ofNat_of_lt' hhigh, Int.toNat_of_nonneg hlow]

theorem codeOf_le (u : ℚ) : (codeOf u).toNat ≤ 255 := by
  have h := toNat_codeOf u
  omega

theorem codeOf_mono {u w : ℚ} (huw : u ≤ w) : (codeOf u).toNat ≤ (codeOf w).toNat := by
  have hu := toNat_codeOf u
  have hw := toNat_codeOf w
  have h := truncate_mono (by linarith : u + 1 / 2 ≤ w + 1 / 2)
  omega

/-- Between the ends of the range the code is the nearest whole number. -/
theorem codeOf_eq_floor {u : ℚ} (hlow : 0 ≤ u) (hhigh : u ≤ 255) :
    ((codeOf u).toNat : Int) = ⌊u + 1 / 2⌋ := by
  have hfloor : ⌊u + 1 / 2⌋ < 256 := Int.floor_lt.2 (by push_cast; linarith)
  have hnonneg : 0 ≤ ⌊u + 1 / 2⌋ := Int.floor_nonneg.2 (by linarith)
  rw [toNat_codeOf, truncate_of_nonneg (by linarith)]
  omega

theorem codeOf_near {u : ℚ} (hlow : 0 ≤ u) (hhigh : u ≤ 255) :
    ((codeOf u).toNat : ℚ) ≤ u + 1 / 2 ∧ u - 1 / 2 < ((codeOf u).toNat : ℚ) := by
  have h : ((codeOf u).toNat : ℚ) = (⌊u + 1 / 2⌋ : Int) := by
    exact_mod_cast congrArg (fun z : Int => (z : ℚ)) (codeOf_eq_floor hlow hhigh)
  rw [h]
  constructor
  · exact Int.floor_le _
  · linarith [Int.lt_floor_add_one (u + 1 / 2)]

theorem codeOf_eq {u : ℚ} {code : UInt8} (hlow : (code.toNat : ℚ) - 1 / 2 ≤ u)
    (hhigh : u < (code.toNat : ℚ) + 1 / 2) (hnonneg : 0 ≤ u) (hu : u ≤ 255) :
    codeOf u = code := by
  apply UInt8.toNat_inj.1
  have h := codeOf_eq_floor hnonneg hu
  have hfloor : ⌊u + 1 / 2⌋ = (code.toNat : Int) :=
    Int.floor_eq_iff.2 ⟨by push_cast; linarith, by push_cast; linarith⟩
  omega

@[simp] theorem toNat_codeOf_zero : (codeOf 0).toNat = 0 := by
  have h := codeOf_eq_floor (u := 0) le_rfl (by norm_num)
  have hfloor : ⌊(0 : ℚ) + 1 / 2⌋ = 0 := Int.floor_eq_iff.2 (by norm_num)
  omega

/-! ## The range of a vector -/

theorem minOf_eq_foldl (first : ℚ) (rest : List ℚ) : minOf first rest = rest.foldl min first := by
  unfold minOf
  congr 1
  funext lo x
  rcases lt_or_ge x lo with h | h
  · simp [h, h.le]
  · simp [h.not_gt, h]

theorem maxOf_eq_foldl (first : ℚ) (rest : List ℚ) : maxOf first rest = rest.foldl max first := by
  unfold maxOf
  congr 1
  funext hi x
  rcases lt_or_ge hi x with h | h
  · simp [h, h.le]
  · simp [h.not_gt, h]

theorem range_of_mem {first : ℚ} {rest : List ℚ} :
    ∀ x ∈ first :: rest, minOf first rest ≤ x ∧ x ≤ maxOf first rest := by
  simp only [minOf_eq_foldl, maxOf_eq_foldl]
  induction rest generalizing first with
  | nil =>
      intro x hx
      simp [List.mem_singleton.1 hx]
  | cons next rest ih =>
      intro x hx
      have hfold := @ih (min first next)
      have hfold' := @ih (max first next)
      rcases List.mem_cons.1 hx with rfl | hx
      · exact ⟨(hfold _ List.mem_cons_self).1.trans (min_le_left _ _),
          (le_max_left _ _).trans (hfold' _ List.mem_cons_self).2⟩
      · rcases List.mem_cons.1 hx with rfl | hx
        · exact ⟨(hfold _ List.mem_cons_self).1.trans (min_le_right _ _),
            (le_max_right _ _).trans (hfold' _ List.mem_cons_self).2⟩
        · exact ⟨(hfold x (List.mem_cons_of_mem _ hx)).1,
            (hfold' x (List.mem_cons_of_mem _ hx)).2⟩

theorem minOf_le_maxOf (first : ℚ) (rest : List ℚ) : minOf first rest ≤ maxOf first rest :=
  (range_of_mem first List.mem_cons_self).1.trans (range_of_mem first List.mem_cons_self).2

theorem minOf_map {f : ℚ → ℚ} (hf : Monotone f) (first : ℚ) (rest : List ℚ) :
    minOf (f first) (rest.map f) = f (minOf first rest) := by
  rw [minOf_eq_foldl, minOf_eq_foldl, List.foldl_map]
  exact List.foldl_hom f fun x y => (hf.map_min).symm

theorem maxOf_map {f : ℚ → ℚ} (hf : Monotone f) (first : ℚ) (rest : List ℚ) :
    maxOf (f first) (rest.map f) = f (maxOf first rest) := by
  rw [maxOf_eq_foldl, maxOf_eq_foldl, List.foldl_map]
  exact List.foldl_hom f fun x y => (hf.map_max).symm

/-! ## Both codecs as one map -/

/-- The component after a round trip through its code. -/
def roundTrip (lo hi x : ℚ) : ℚ :=
  lo + (hi - lo) * ((codeOf ((x - lo) * (255 / widened (hi - lo)))).toNat / 255)

theorem quantize_cons (first : ℚ) (rest : List ℚ) :
    quantize (first :: rest) =
      ⟨minOf first rest, maxOf first rest, (first :: rest).map fun x =>
        codeOf ((x - minOf first rest) *
          (255 / widened (maxOf first rest - minOf first rest)))⟩ :=
  rfl

theorem dequantize_quantize (first : ℚ) (rest : List ℚ) :
    dequantize (quantize (first :: rest)) =
      (first :: rest).map (roundTrip (minOf first rest) (maxOf first rest)) := by
  rw [quantize_cons, dequantize, List.map_map]
  apply List.map_congr_left
  intro x _
  simp only [Function.comp_apply, roundTrip]
  ring

theorem quantizeNodePoint_cons (first : ℚ) (rest : List ℚ) :
    quantizeNodePoint { point := first :: rest } =
      { point := []
        q8Data := (quantize (first :: rest)).qdata
        qMin := (quantize (first :: rest)).minVal
        qMax := (quantize (first :: rest)).maxVal } := by
  simp only [quantizeNodePoint, quantize_cons, NodePoint.mk.injEq, true_and, and_true]
  apply List.map_congr_left
  intro x _
  rw [div_mul_eq_mul_div, ← mul_div_assoc, codeOf]
  congr 2
  split_ifs <;> omega

theorem nodePointView_quantizeNodePoint (first : ℚ) (rest : List ℚ) :
    nodePointView (quantizeNodePoint { point := first :: rest }) =
      dequantize (quantize (first :: rest)) := by
  rw [quantizeNodePoint_cons]
  simp only [nodePointView, dequantizeNodePoint, quantize_cons, dequantize, List.map_cons,
    ne_eq, not_true_eq_false, if_false, reduceCtorEq, Option.getD_some, List.cons.injEq]
  constructor
  · ring
  · apply List.map_congr_left
    intro q _
    ring

/-! ## Ranges the codes cover -/

theorem widened_pos (range : ℚ) : 0 < widened range := by
  unfold widened
  split_ifs with h
  · exact leastRange_pos
  · exact leastRange_pos.trans_le (not_lt.1 h)

theorem le_widened (range : ℚ) : range ≤ widened range := by
  unfold widened
  split_ifs with h
  · exact h.le
  · exact le_rfl

/-- The greatest component gets the last code, or all components are equal. -/
def Covered (range : ℚ) : Prop :=
  range = 0 ∨ 509 * leastRange ≤ 510 * range

instance (range : ℚ) : Decidable (Covered range) := by
  unfold Covered
  infer_instance

theorem Covered.widened_le {range : ℚ} (hcovered : Covered range) (hpos : 0 < range) :
    509 * widened range ≤ 510 * range := by
  have hleast := hcovered.resolve_left hpos.ne'
  unfold widened
  split_ifs with h
  · exact hleast
  · linarith

section

variable {lo hi x : ℚ}

/-- Where a component lies among the 255 steps of the widened range. -/
theorem position_bounds (hlow : lo ≤ x) (hhigh : x ≤ hi) :
    0 ≤ (x - lo) * (255 / widened (hi - lo)) ∧
      (x - lo) * (255 / widened (hi - lo)) * (hi - lo) ≤ 255 * (x - lo) ∧
      (x - lo) * (255 / widened (hi - lo)) ≤ 255 := by
  have hpos := widened_pos (hi - lo)
  have hle := le_widened (hi - lo)
  have hstep : (x - lo) * (255 / widened (hi - lo)) * widened (hi - lo) = 255 * (x - lo) := by
    field_simp
  have hnonneg : 0 ≤ (x - lo) * (255 / widened (hi - lo)) :=
    mul_nonneg (by linarith) (by positivity)
  refine ⟨hnonneg, ?_, ?_⟩
  · calc
      _ ≤ (x - lo) * (255 / widened (hi - lo)) * widened (hi - lo) :=
        mul_le_mul_of_nonneg_left hle hnonneg
      _ = 255 * (x - lo) := hstep
  · rw [mul_div_assoc', div_le_iff₀ hpos]
    linarith

theorem roundTrip_mono (hrange : lo ≤ hi) : Monotone (roundTrip lo hi) := by
  intro x y hxy
  have hpos := widened_pos (hi - lo)
  have hstep : (x - lo) * (255 / widened (hi - lo)) ≤ (y - lo) * (255 / widened (hi - lo)) :=
    mul_le_mul_of_nonneg_right (by linarith) (by positivity)
  have hcode : ((codeOf ((x - lo) * (255 / widened (hi - lo)))).toNat : ℚ) ≤
      (codeOf ((y - lo) * (255 / widened (hi - lo)))).toNat := by
    exact_mod_cast codeOf_mono hstep
  unfold roundTrip
  gcongr

@[simp] theorem roundTrip_lo : roundTrip lo hi lo = lo := by
  simp [roundTrip]

/-- The steps of a covered range are at most half a step off at its end. -/
theorem Covered.position_gap (hcovered : Covered (hi - lo)) (hrange : lo < hi)
    (hlow : lo ≤ x) (hhigh : x ≤ hi) :
    255 * (x - lo) ≤ ((x - lo) * (255 / widened (hi - lo)) + 1 / 2) * (hi - lo) := by
  have hpos := widened_pos (hi - lo)
  have hgap := hcovered.widened_le (by linarith)
  have hstep : (x - lo) * (255 / widened (hi - lo)) * widened (hi - lo) = 255 * (x - lo) := by
    field_simp
  have hle := (position_bounds hlow hhigh).2.2
  have hdiff : 510 * (widened (hi - lo) - (hi - lo)) ≤ widened (hi - lo) := by linarith
  nlinarith [(position_bounds hlow hhigh).1, le_widened (hi - lo)]

theorem roundTrip_hi (hcovered : Covered (hi - lo)) (hrange : lo ≤ hi) :
    roundTrip lo hi hi = hi := by
  rcases hrange.eq_or_lt with rfl | hlt
  · exact roundTrip_lo
  · have hgap := hcovered.position_gap hlt hlt.le le_rfl
    have hcode : ((255 : UInt8).toNat : ℚ) = 255 := rfl
    have hbounds := position_bounds hlt.le (le_refl hi)
    have hlast : codeOf ((hi - lo) * (255 / widened (hi - lo))) = 255 := by
      refine codeOf_eq ?_ ?_ hbounds.1 hbounds.2.2 <;> rw [hcode]
      · have := le_of_mul_le_mul_right hgap (sub_pos.2 hlt)
        linarith
      · linarith [hbounds.2.2]
    rw [roundTrip, hlast, hcode]
    ring

theorem roundTrip_error (hcovered : Covered (hi - lo)) (hlow : lo ≤ x) (hhigh : x ≤ hi) :
    |roundTrip lo hi x - x| ≤ (hi - lo) / 255 := by
  rcases (hlow.trans hhigh).eq_or_lt with rfl | hlt
  · have hx : x = lo := le_antisymm hhigh hlow
    simp [hx]
  · obtain ⟨hnonneg, hshrunk, hle⟩ := position_bounds hlow hhigh
    have hgap := hcovered.position_gap hlt hlow hhigh
    obtain ⟨habove, hbelow⟩ := codeOf_near hnonneg hle
    rw [roundTrip]
    generalize (x - lo) * (255 / widened (hi - lo)) = u at *
    generalize ((codeOf u).toNat : ℚ) = code at *
    have hpos : 0 < hi - lo := sub_pos.2 hlt
    have hupper : code * (hi - lo) ≤ (u + 1 / 2) * (hi - lo) := by gcongr
    have hlower : (u - 1 / 2) * (hi - lo) ≤ code * (hi - lo) := by gcongr
    have hscaled : lo + (hi - lo) * (code / 255) - x =
        (code * (hi - lo) - 255 * (x - lo)) / 255 := by ring
    rw [hscaled, abs_le]
    constructor <;> linarith

/-- A decoded component lies at its own code again. -/
theorem codeOf_roundTrip (hcovered : Covered (hi - lo)) (hlow : lo ≤ x) (hhigh : x ≤ hi) :
    codeOf ((roundTrip lo hi x - lo) * (255 / widened (hi - lo))) =
      codeOf ((x - lo) * (255 / widened (hi - lo))) := by
  rcases (hlow.trans hhigh).eq_or_lt with rfl | hlt
  · have hx : x = lo := le_antisymm hhigh hlow
    simp [hx]
  · have hpos := widened_pos (hi - lo)
    have hle := le_widened (hi - lo)
    have hgap := hcovered.widened_le (sub_pos.2 hlt)
    have hmax : ((codeOf ((x - lo) * (255 / widened (hi - lo)))).toNat : ℚ) ≤ 255 := by
      exact_mod_cast codeOf_le _
    have hposition : (roundTrip lo hi x - lo) * (255 / widened (hi - lo)) =
        (codeOf ((x - lo) * (255 / widened (hi - lo)))).toNat * (hi - lo) /
          widened (hi - lo) := by
      rw [roundTrip]
      field_simp
      ring
    rw [hposition]
    generalize codeOf ((x - lo) * (255 / widened (hi - lo))) = code at *
    have hnonneg : (0 : ℚ) ≤ code.toNat := by positivity
    have hshrunk : (code.toNat : ℚ) * (hi - lo) / widened (hi - lo) ≤ code.toNat := by
      rw [div_le_iff₀ hpos]
      gcongr
    apply codeOf_eq
    · rw [le_div_iff₀ hpos]
      nlinarith
    · linarith
    · have : 0 ≤ hi - lo := (sub_pos.2 hlt).le
      positivity
    · linarith

/-- Below a covered range the last code is not reached. -/
theorem roundTrip_hi_lt (hcovered : ¬ Covered (hi - lo)) (hrange : lo ≤ hi) :
    roundTrip lo hi hi < hi := by
  obtain ⟨hne, hsmall⟩ := not_or.1 hcovered
  have hpos : 0 < hi - lo := lt_of_le_of_ne (sub_nonneg.2 hrange) (Ne.symm hne)
  have hwidened : widened (hi - lo) = leastRange := by
    rw [widened, if_pos]
    linarith [leastRange_pos]
  obtain ⟨hnonneg, _, hle⟩ := position_bounds hrange (le_refl hi)
  have hnear := (codeOf_near hnonneg hle).1
  have hbelow : (hi - lo) * (255 / widened (hi - lo)) < 254 + 1 / 2 := by
    rw [hwidened, mul_div_assoc', div_lt_iff₀ leastRange_pos]
    linarith
  have hcode : ((codeOf ((hi - lo) * (255 / widened (hi - lo)))).toNat : ℚ) < 255 := by
    linarith
  rw [roundTrip]
  have hscaled : (hi - lo) *
      ((codeOf ((hi - lo) * (255 / widened (hi - lo)))).toNat / 255) < (hi - lo) * 1 := by
    gcongr
    rw [div_lt_one (by norm_num)]
    exact hcode
  linarith

end

/-! ## Whole vectors -/

/-- The distance between the greatest and the least component. -/
def spread (first : ℚ) (rest : List ℚ) : ℚ :=
  rest.foldl max first - rest.foldl min first

theorem spread_eq (first : ℚ) (rest : List ℚ) :
    spread first rest = maxOf first rest - minOf first rest := by
  rw [spread, maxOf_eq_foldl, minOf_eq_foldl]

theorem quantize_roundTrip {first : ℚ} {rest : List ℚ}
    (hcovered : Covered (spread first rest)) :
    quantize (dequantize (quantize (first :: rest))) = quantize (first :: rest) := by
  rw [spread_eq] at hcovered
  have hrange := minOf_le_maxOf first rest
  rw [dequantize_quantize, List.map_cons, quantize_cons, minOf_map (roundTrip_mono hrange),
    maxOf_map (roundTrip_mono hrange), roundTrip_lo, roundTrip_hi hcovered hrange,
    quantize_cons, ← List.map_cons, List.map_map]
  simp only [Record.mk.injEq, true_and]
  apply List.map_congr_left
  intro x hx
  exact codeOf_roundTrip hcovered (range_of_mem x hx).1 (range_of_mem x hx).2

theorem Covered.of_roundTrip {first : ℚ} {rest : List ℚ}
    (hfixed : quantize (dequantize (quantize (first :: rest))) = quantize (first :: rest)) :
    Covered (spread first rest) := by
  by_contra hcovered
  rw [spread_eq] at hcovered
  have hrange := minOf_le_maxOf first rest
  have hlt := roundTrip_hi_lt hcovered hrange
  have hmax := congrArg Record.maxVal hfixed
  rw [dequantize_quantize, List.map_cons, quantize_cons, quantize_cons,
    maxOf_map (roundTrip_mono hrange)] at hmax
  exact hlt.ne hmax

theorem error_dequantize {first : ℚ} {rest : List ℚ}
    (hcovered : Covered (spread first rest)) :
    List.Forall₂ (fun a b => |b - a| ≤ spread first rest / 255) (first :: rest)
      (dequantize (quantize (first :: rest))) := by
  rw [dequantize_quantize, List.forall₂_map_right_iff, List.forall₂_same, spread_eq]
  rw [spread_eq] at hcovered
  exact fun x hx => roundTrip_error hcovered (range_of_mem x hx).1 (range_of_mem x hx).2

theorem dequantizeNodePoint_quantizeNodePoint (first : ℚ) (rest : List ℚ) :
    dequantizeNodePoint (quantizeNodePoint { point := first :: rest }) =
      some (dequantize (quantize (first :: rest))) := by
  rw [← nodePointView_quantizeNodePoint, quantizeNodePoint_cons]
  simp [nodePointView, dequantizeNodePoint, quantize_cons]

theorem reopenNode_quantizeNodePoint {first : ℚ} {rest : List ℚ}
    (hcovered : Covered (spread first rest)) :
    reopenNode (quantizeNodePoint { point := first :: rest }) =
      quantizeNodePoint { point := first :: rest } := by
  have hfixed := quantize_roundTrip hcovered
  rw [reopenNode, nodePointView_quantizeNodePoint]
  rw [dequantize_quantize, List.map_cons] at hfixed ⊢
  rw [quantizeNodePoint_cons, hfixed, quantizeNodePoint_cons]

/-- What a vector keeps through the codecs: each component to one step of its range, the
same floats from both, and its codes when it is encoded again or its node is reopened. -/
structure Steady (first : ℚ) (rest : List ℚ) : Prop where
  error : List.Forall₂ (fun a b => |b - a| ≤ spread first rest / 255) (first :: rest)
    (dequantize (quantize (first :: rest)))
  nodeError : List.Forall₂ (fun a b => |b - a| ≤ spread first rest / 255) (first :: rest)
    (nodePointView (quantizeNodePoint { point := first :: rest }))
  agree : dequantizeNodePoint (quantizeNodePoint { point := first :: rest }) =
    some (dequantize (quantize (first :: rest)))
  encoded : quantize (dequantize (quantize (first :: rest))) = quantize (first :: rest)
  reopened : ∀ reopens, reopenNode^[reopens] (quantizeNodePoint { point := first :: rest }) =
    quantizeNodePoint { point := first :: rest }

/-- The codecs are steady on a vector exactly when its components are equal or its range
is wide enough for the greatest one to get the last code. -/
theorem steady_iff (first : ℚ) (rest : List ℚ) :
    Steady first rest ↔
      spread first rest = 0 ∨ 509 * leastRange ≤ 510 * spread first rest := by
  constructor
  · exact fun hsteady => Covered.of_roundTrip hsteady.encoded
  · intro hcovered
    refine ⟨error_dequantize hcovered, ?_, dequantizeNodePoint_quantizeNodePoint first rest,
      quantize_roundTrip hcovered, ?_⟩
    · rw [nodePointView_quantizeNodePoint]
      exact error_dequantize hcovered
    · exact fun reopens => Function.iterate_fixed (reopenNode_quantizeNodePoint hcovered) reopens

/-- Two components a tenth of the least range apart: the greater one decodes too low. -/
theorem nearlyConstant_drifts :
    ¬ Steady 0 [1 / 10 ^ 11] ∧
      dequantize (quantize [0, 1 / 10 ^ 11]) = [0, 26 / 255 * (1 / 10 ^ 11)] := by
  constructor
  · intro hsteady
    have hcovered := Covered.of_roundTrip hsteady.encoded
    norm_num [Covered, spread, leastRange] at hcovered
  · have hcode : (codeOf (255 / 10)).toNat = 26 := by
      have h := codeOf_eq_floor (u := 255 / 10) (by norm_num) (by norm_num)
      have hfloor : ⌊(255 / 10 : ℚ) + 1 / 2⌋ = 26 := Int.floor_eq_iff.2 (by norm_num)
      omega
    have hwidened : widened (1 / 10 ^ 11 : ℚ) = 1 / 10 ^ 10 := by
      norm_num [widened, leastRange]
    have hposition : (1 / 10 ^ 11 : ℚ) * (255 / (1 / 10 ^ 10)) = 255 / 10 := by norm_num
    have hmin : minOf 0 [1 / 10 ^ 11] = 0 := by norm_num [minOf]
    have hmax : maxOf 0 [1 / 10 ^ 11] = 1 / 10 ^ 11 := by norm_num [maxOf]
    rw [dequantize_quantize, hmin, hmax]
    simp only [List.map_cons, List.map_nil, roundTrip, sub_zero, hwidened,
      hposition, hcode]
    norm_num

end AsterVec.Sq8

import AsterVec.RnnDescent

/-!
The initial sample of the builder with machine integers.  A signed operation gives no value when
it overflows; the sample is the one over the natural numbers when none does.
-/

namespace AsterVec.RnnSampling

open AsterVec.RnnDescent (spread)

/-! 32-bit integers -/

/-- A result that fits into an `int`. -/
def int32 (x : Int) : Option Int := if -2 ^ 31 ≤ x ∧ x < 2 ^ 31 then some x else none

def addInt (a b : Int) : Option Int := int32 (a + b)

def subInt (a b : Int) : Option Int := int32 (a - b)

/-- `static_cast<int>` of an unsigned number. -/
def toInt (n : Nat) : Int := (n : Int).bmod (2 ^ 32)

/-! The sample -/

/-- A number that is not larger than the one before is replaced. -/
def pushed (prev addr : Int) : Option Int :=
  if addr ≤ prev then addInt prev 1 else some addr

/-- Make every number larger than the one before. -/
def pushUp (prev : Int) : List Int → Option (List Int)
  | [] => some []
  | addr :: rest => do
      let addr ← pushed prev addr
      let rest ← pushUp addr rest
      return addr :: rest

/-- The first number stays. -/
def pushAll : List Int → Option (List Int)
  | [] => some []
  | addr :: rest => do
      let rest ← pushUp addr rest
      return addr :: rest

/-- The draws, one after the other; `%` is that of unsigned numbers. -/
def drawAll (rng : Nat → UInt32) (size N : Int) : Nat → Option (List Int)
  | 0 => some []
  | count + 1 => do
      let drawn ← drawAll rng size N count
      let range ← subInt N size
      return drawn ++ [toInt ((rng count).toNat % range.toNat)]

/-- Add the offset to every number, modulo `N`. -/
def shiftAll (off N : Int) : List Int → Option (List Int)
  | [] => some []
  | addr :: rest => do
      let sum ← addInt addr off
      let rest ← shiftAll off N rest
      return sum.tmod N :: rest

/-- `none` when a signed operation overflows.  `rng` are the outputs of the generator. -/
def genRandom (rng : Nat → UInt32) (size N : Int) : Option (List Int) := do
  let drawn ← drawAll rng size N size.toNat
  let addrs ← pushAll (drawn.insertionSort (· ≤ ·))
  let off := toInt ((rng size.toNat).toNat % N.toNat)
  shiftAll off N addrs

/-! The sample over the natural numbers -/

variable {prev bound size N : Nat} {addrs : List Nat}

theorem chain_spread : List.IsChain (· < ·) (prev :: spread prev addrs) := by
  induction addrs generalizing prev with
  | nil => exact List.isChain_singleton prev
  | cons addr rest ih =>
      rw [spread]
      refine List.isChain_cons_cons.mpr ⟨?_, ih⟩
      split <;> omega

@[simp] theorem length_spread : (spread prev addrs).length = addrs.length := by
  induction addrs generalizing prev with
  | nil => rfl
  | cons addr rest ih =>
      rw [spread]
      simp only [List.length_cons, ih]

/-- A push leaves the range by one number at most. -/
theorem spread_le (hprev : prev ≤ bound) (haddrs : ∀ a ∈ addrs, a ≤ bound) :
    ∀ a ∈ spread prev addrs, a ≤ bound + addrs.length := by
  induction addrs generalizing prev bound with
  | nil =>
      intro a ha
      cases ha
  | cons addr rest ih =>
      have haddr := haddrs addr List.mem_cons_self
      rw [spread, List.length_cons]
      have hnext : (if addr ≤ prev then prev + 1 else addr) ≤ bound + 1 := by
        split <;> omega
      intro a ha
      rcases List.mem_cons.mp ha with rfl | ha
      · omega
      · have hle := ih hnext (fun a ha => (haddrs a (List.mem_cons_of_mem _ ha)).trans
          (Nat.le_succ bound)) a ha
        omega

theorem mod_injOn (hN : 0 < N) (off : Nat) {a b : Nat} (ha : a < N) (hb : b < N)
    (hsame : (a + off) % N = (b + off) % N) : a = b := by
  have hmod : a % N = b % N := Nat.ModEq.add_right_cancel' off hsame
  rwa [Nat.mod_eq_of_lt ha, Nat.mod_eq_of_lt hb] at hmod

/-- The sorted draws, pushed apart. -/
def spreadAll : List Nat → List Nat
  | [] => []
  | addr :: rest => addr :: spread addr rest

@[simp] theorem length_spreadAll : (spreadAll addrs).length = addrs.length := by
  cases addrs with
  | nil => rfl
  | cons addr rest => rw [spreadAll, List.length_cons, List.length_cons, length_spread]

theorem nodup_spreadAll : (spreadAll addrs).Nodup := by
  cases addrs with
  | nil => exact List.nodup_nil
  | cons addr rest => exact (List.isChain_iff_pairwise.mp chain_spread).imp Nat.ne_of_lt

theorem spreadAll_lt (haddrs : ∀ a ∈ addrs, a ≤ bound) :
    ∀ a ∈ spreadAll addrs, a < bound + addrs.length := by
  cases addrs with
  | nil =>
      intro a ha
      cases ha
  | cons addr rest =>
      have hfirst := haddrs addr List.mem_cons_self
      have hrest := spread_le hfirst fun a ha => haddrs a (List.mem_cons_of_mem _ ha)
      intro a ha
      rw [List.length_cons]
      rcases List.mem_cons.mp ha with rfl | ha
      · omega
      · have hle := hrest a ha
        omega

/-- The draws in order. -/
def sortedDraws (draw : Nat → Nat) (size N : Nat) : List Nat :=
  ((List.range size).map fun i => draw i % (N - size)).insertionSort (· ≤ ·)

theorem genRandom_eq_map (draw : Nat → Nat) (size N : Nat) :
    RnnDescent.genRandom draw size N =
      (spreadAll (sortedDraws draw size N)).map fun addr => (addr + draw size % N) % N := rfl

@[simp] theorem length_sortedDraws (draw : Nat → Nat) :
    (sortedDraws draw size N).length = size := by
  rw [sortedDraws, List.length_insertionSort, List.length_map, List.length_range]

theorem sortedDraws_le (draw : Nat → Nat) (hlt : size < N) :
    ∀ a ∈ sortedDraws draw size N, a ≤ N - size - 1 := by
  intro a ha
  rw [sortedDraws, List.mem_insertionSort] at ha
  obtain ⟨i, -, rfl⟩ := List.mem_map.mp ha
  exact Nat.le_sub_one_of_lt (Nat.mod_lt _ (Nat.sub_pos_of_lt hlt))

/-- The numbers before the shift are in the range. -/
theorem spreadAll_draws_lt (draw : Nat → Nat) (hlt : size < N) :
    ∀ a ∈ spreadAll (sortedDraws draw size N), a < N := by
  intro a ha
  have hle := spreadAll_lt (sortedDraws_le draw hlt) a ha
  rw [length_sortedDraws] at hle
  omega

/-- The sample has the size it is asked for, and its numbers are distinct. -/
theorem sample_spec (draw : Nat → Nat) (hlt : size < N) :
    (RnnDescent.genRandom draw size N).length = size ∧
      (RnnDescent.genRandom draw size N).Nodup := by
  have hrange := spreadAll_draws_lt draw hlt
  rw [genRandom_eq_map, List.length_map, length_spreadAll, length_sortedDraws]
  refine ⟨rfl, List.Nodup.map_on (fun a ha b hb hsame => ?_) nodup_spreadAll⟩
  exact mod_injOn (Nat.zero_lt_of_lt hlt) _ (hrange a ha) (hrange b hb) hsame

/-! The machine integers -/

theorem int32_of_lt {n : Nat} (hn : n < 2 ^ 31) : int32 n = some (n : Int) := by
  rw [int32, if_pos (by omega)]

theorem addInt_of_lt {a b : Nat} (hsum : a + b < 2 ^ 31) : addInt a b = some ((a + b : Nat) : Int) := by
  rw [addInt, ← Int.natCast_add]
  exact int32_of_lt hsum

theorem toInt_of_lt {n : Nat} (hn : n < 2 ^ 31) : toInt n = n := by
  refine Int.bmod_eq_of_le ?_ ?_ <;> omega

theorem pushUp_eq (hprev : prev + addrs.length < 2 ^ 31)
    (haddrs : ∀ a ∈ addrs, a + addrs.length < 2 ^ 31) :
    pushUp prev (addrs.map (↑)) = some ((spread prev addrs).map (↑)) := by
  induction addrs generalizing prev with
  | nil => rfl
  | cons addr rest ih =>
      have haddr := haddrs addr List.mem_cons_self
      rw [List.length_cons] at hprev haddr
      have hstep : pushed prev addr =
          some ((if addr ≤ prev then prev + 1 else addr : Nat) : Int) := by
        unfold pushed
        split_ifs with hle hle' hle'
        · exact addInt_of_lt (b := 1) (by omega)
        · omega
        · omega
        · rfl
      have hnext : (if addr ≤ prev then prev + 1 else addr) + rest.length < 2 ^ 31 := by
        split <;> omega
      have hrest := ih hnext fun a ha => by
        have hlt := haddrs a (List.mem_cons_of_mem _ ha)
        rw [List.length_cons] at hlt
        omega
      rw [List.map_cons, pushUp, hstep, spread]
      simp only [Option.bind_eq_bind, Option.bind_some, hrest, Option.pure_def, List.map_cons]

theorem drawAll_eq (rng : Nat → UInt32) (hlt : size < N) (hN : N ≤ 2 ^ 30) (count : Nat) :
    drawAll rng size N count =
      some (((List.range count).map fun i => (rng i).toNat % (N - size)).map (↑)) := by
  induction count with
  | zero => rfl
  | succ count ih =>
      have hrange : subInt N size = some ((N - size : Nat) : Int) := by
        rw [subInt, ← Int.natCast_sub hlt.le]
        exact int32_of_lt (by omega)
      have hmod := Nat.mod_lt (rng count).toNat (Nat.sub_pos_of_lt hlt)
      rw [drawAll, ih, hrange, List.range_succ, List.map_append, List.map_append]
      simp only [Option.bind_eq_bind, Option.bind_some, Option.pure_def, Int.toNat_natCast,
        List.map_cons, List.map_nil]
      rw [toInt_of_lt (by omega)]

theorem shiftAll_eq {off : Nat} (haddrs : ∀ a ∈ addrs, a + off < 2 ^ 31) :
    shiftAll off N (addrs.map (↑)) = some ((addrs.map fun a => (a + off) % N).map (↑)) := by
  induction addrs with
  | nil => rfl
  | cons addr rest ih =>
      have hrest := ih fun a ha => haddrs a (List.mem_cons_of_mem _ ha)
      rw [List.map_cons, shiftAll, addInt_of_lt (haddrs addr List.mem_cons_self), hrest]
      simp only [Option.bind_eq_bind, Option.bind_some, Option.pure_def, List.map_cons,
        Int.ofNat_tmod]

theorem pushAll_eq (haddrs : ∀ a ∈ addrs, a + addrs.length < 2 ^ 31) :
    pushAll (addrs.map (↑)) = some ((spreadAll addrs).map (↑)) := by
  cases addrs with
  | nil => rfl
  | cons addr rest =>
      rw [List.length_cons] at haddrs
      have hfirst := haddrs addr List.mem_cons_self
      have hpush : pushUp addr (rest.map (↑)) = some ((spread addr rest).map (↑)) := by
        refine pushUp_eq (by omega) fun a ha => ?_
        have hlt := haddrs a (List.mem_cons_of_mem _ ha)
        omega
      rw [List.map_cons, pushAll, hpush, spreadAll]
      rfl

theorem sort_draws (draw : Nat → Nat) :
    (((List.range size).map fun i => draw i % (N - size)).map ((↑) : Nat → Int)).insertionSort
      (· ≤ ·) = (sortedDraws draw size N).map (↑) := by
  refine (List.map_insertionSort (· ≤ ·) (· ≤ ·) _ _ fun a _ b _ => ?_).symm
  exact Int.ofNat_le.symm

/-- No operation overflows: the result is the sample over the natural numbers. -/
theorem genRandom_eq (rng : Nat → UInt32) (hlt : size < N) (hN : N ≤ 2 ^ 30) :
    genRandom rng size N =
      some ((RnnDescent.genRandom (fun i => (rng i).toNat) size N).map (↑)) := by
  have hoff := Nat.mod_lt (rng size).toNat (Nat.zero_lt_of_lt hlt)
  have hdraws := sortedDraws_le (fun i => (rng i).toNat) hlt
  have hrange := spreadAll_draws_lt (fun i => (rng i).toNat) hlt
  have hfits : ∀ a ∈ sortedDraws (fun i => (rng i).toNat) size N,
      a + (sortedDraws (fun i => (rng i).toNat) size N).length < 2 ^ 31 := by
    intro a ha
    have hle := hdraws a ha
    rw [length_sortedDraws]
    omega
  have hsum : ∀ a ∈ spreadAll (sortedDraws (fun i => (rng i).toNat) size N),
      a + (rng size).toNat % N < 2 ^ 31 := by
    intro a ha
    have hlt := hrange a ha
    omega
  rw [genRandom, Int.toNat_natCast, drawAll_eq rng hlt hN, Int.toNat_natCast,
    toInt_of_lt (by omega)]
  simp only [Option.bind_eq_bind, Option.bind_some, sort_draws, pushAll_eq hfits,
    shiftAll_eq hsum]
  rfl

/-- Whatever the generator puts out, no operation overflows, and the sample has the size it is
asked for, is distinct and lies in the range. -/
theorem genRandom_distinct (rng : Nat → UInt32) (size N : Int) (hsize : 0 < size)
    (hlt : size < N) (hN : N ≤ 2 ^ 30) :
    ∃ addr, genRandom rng size N = some addr ∧ addr.length = size.toNat ∧ addr.Nodup ∧
      ∀ a ∈ addr, 0 ≤ a ∧ a < N := by
  obtain ⟨size, rfl⟩ := Int.eq_ofNat_of_zero_le hsize.le
  obtain ⟨N, rfl⟩ := Int.eq_ofNat_of_zero_le (hsize.trans hlt).le
  have hlt : size < N := Int.ofNat_lt.mp hlt
  obtain ⟨hlength, hnodup⟩ := sample_spec (fun i => (rng i).toNat) hlt
  refine ⟨_, genRandom_eq rng hlt (by omega), ?_, ?_, ?_⟩
  · rw [List.length_map, hlength, Int.toNat_natCast]
  · exact hnodup.map Int.ofNat_injective
  · intro a ha
    obtain ⟨id, hid, rfl⟩ := List.mem_map.mp ha
    have hrange := RnnDescent.genRandom_lt (Nat.zero_lt_of_lt hlt) id hid
    omega

/-- Equal draws are pushed apart. -/
theorem genRandom_seven :
    ∃ addr, genRandom (fun _ => 7) 3 5 = some addr ∧ addr.length = (3 : Int).toNat ∧ addr.Nodup ∧
      ∀ a ∈ addr, 0 ≤ a ∧ a < 5 :=
  genRandom_distinct _ 3 5 (by decide) (by decide) (by decide)

end AsterVec.RnnSampling

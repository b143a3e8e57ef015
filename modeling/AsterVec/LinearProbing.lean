import Mathlib.Data.Finset.Card
import Mathlib.Data.Nat.Find
import Mathlib.Logic.Function.Basic
import Mathlib.Tactic.SplitIfs

/-!
Hash tables with open addressing.  A key stands at its home or after it, with no free position
between; a deletion moves later keys back so that this stays so, and leaves no marks.
-/

namespace AsterVec.LinearProbing

variable {κ β : Type} [DecidableEq κ]

/-- Keys and values by position. -/
structure Table (κ β : Type) where
  keys : Nat → κ
  vals : Nat → β

/-- The positions of a table: they form a circle, and every key has a home on it.  `empty` is
the key of a free position. -/
structure Layout (κ : Type) where
  size : Nat
  home : κ → Nat
  next : Nat → Nat
  gap : Nat → Nat → Nat
  empty : κ
  home_lt : ∀ k, home k < size
  next_eq : ∀ i < size, next i = if i + 1 = size then 0 else i + 1
  gap_eq : ∀ i < size, ∀ j < size, gap i j = if i ≤ j then j - i else j + size - i

variable (lay : Layout κ)

/-- Walk to a free position or to the key. -/
def probe (t : Table κ β) (k : κ) : Nat → Nat → Nat
  | 0, i => i
  | fuel + 1, i =>
      if t.keys i = lay.empty ∨ t.keys i = k then i else probe t k fuel (lay.next i)

def find (t : Table κ β) (k : κ) : Option β :=
  let i := probe lay t k lay.size (lay.home k)
  if t.keys i = lay.empty then none else some (t.vals i)

def insert (t : Table κ β) (k : κ) (v : β) : Table κ β :=
  let i := probe lay t k lay.size (lay.home k)
  if t.keys i ≠ lay.empty then { t with vals := Function.update t.vals i v }
  else { keys := Function.update t.keys i k, vals := Function.update t.vals i v }

/-- Move keys back into the hole at `i` while `j` walks to the next free position. -/
def shift (t : Table κ β) : Nat → Nat → Nat → Table κ β × Nat
  | 0, i, _ => (t, i)
  | fuel + 1, i, j =>
      let j := lay.next j
      if t.keys j = lay.empty then (t, i)
      else if lay.gap i j ≤ lay.gap (lay.home (t.keys j)) j then
        shift
          { keys := Function.update t.keys i (t.keys j)
            vals := Function.update t.vals i (t.vals j) } fuel j j
      else shift t fuel i j

def erase (t : Table κ β) (k : κ) : Table κ β :=
  let i := probe lay t k lay.size (lay.home k)
  if t.keys i = lay.empty then t
  else
    let shifted := shift lay t lay.size i i
    { shifted.1 with keys := Function.update shifted.1.keys shifted.2 lay.empty }

/-! The circle -/

variable {lay} {h i j p q : Nat}

namespace Layout

theorem next_lt (hi : i < lay.size) : lay.next i < lay.size := by
  rw [lay.next_eq i hi]
  split <;> omega

theorem gap_lt (hi : i < lay.size) (hj : j < lay.size) : lay.gap i j < lay.size := by
  rw [lay.gap_eq i hi j hj]
  split <;> omega

theorem gap_self (hi : i < lay.size) : lay.gap i i = 0 := by
  rw [lay.gap_eq i hi i hi, if_pos (Nat.le_refl i), Nat.sub_self]

theorem gap_inj (hi : i < lay.size) (hp : p < lay.size) (hq : q < lay.size)
    (hsame : lay.gap i p = lay.gap i q) : p = q := by
  rw [lay.gap_eq i hi p hp, lay.gap_eq i hi q hq] at hsame
  split_ifs at hsame <;> omega

theorem gap_pos (hi : i < lay.size) (hp : p < lay.size) (hne : p ≠ i) : 0 < lay.gap i p := by
  refine Nat.pos_of_ne_zero fun hzero => hne ?_
  exact gap_inj hi hp hi (hzero.trans (gap_self hi).symm)

theorem gap_next (hi : i < lay.size) (hj : j < lay.size) (hne : lay.gap i j + 1 < lay.size) :
    lay.gap i (lay.next j) = lay.gap i j + 1 := by
  have hnext := lay.next_lt hj
  rw [lay.gap_eq i hi j hj] at hne ⊢
  rw [lay.gap_eq i hi _ hnext, lay.next_eq j hj]
  split_ifs at hne ⊢ <;> omega

/-- What stands on the way to `p` splits the way. -/
theorem gap_add (hh : h < lay.size) (hi : i < lay.size) (hp : p < lay.size)
    (hway : lay.gap h i ≤ lay.gap h p) : lay.gap h p = lay.gap h i + lay.gap i p := by
  rw [lay.gap_eq h hh i hi, lay.gap_eq h hh p hp] at hway ⊢
  rw [lay.gap_eq i hi p hp]
  split_ifs at hway ⊢ <;> omega

theorem gap_add_of_le (hh : h < lay.size) (hi : i < lay.size) (hp : p < lay.size)
    (hle : lay.gap i p ≤ lay.gap h p) : lay.gap h p = lay.gap h i + lay.gap i p := by
  rw [lay.gap_eq i hi p hp, lay.gap_eq h hh p hp] at hle
  rw [lay.gap_eq i hi p hp, lay.gap_eq h hh p hp, lay.gap_eq h hh i hi]
  split_ifs at hle ⊢ <;> omega

end Layout

/-! What a table holds -/

/-- The table holds `content`: every key once, and no free position between its home and
itself. -/
structure Holds (lay : Layout κ) (t : Table κ β) (content : κ → Option β) : Prop where
  not_empty : content lay.empty = none
  found : ∀ k v, content k = some v → ∃ p < lay.size, t.keys p = k ∧ t.vals p = v
  kept : ∀ p < lay.size, t.keys p ≠ lay.empty → content (t.keys p) = some (t.vals p)
  distinct : ∀ p < lay.size, ∀ q < lay.size, t.keys p ≠ lay.empty → t.keys p = t.keys q → p = q
  path : ∀ p < lay.size, ∀ q < lay.size, t.keys p ≠ lay.empty →
    lay.gap (lay.home (t.keys p)) q < lay.gap (lay.home (t.keys p)) p → t.keys q ≠ lay.empty
  free : ∃ e < lay.size, t.keys e = lay.empty

variable {t : Table κ β} {content : κ → Option β} {k : κ}

/-- A position at which a walk for `k` ends. -/
def Stops (lay : Layout κ) (t : Table κ β) (k : κ) (p : Nat) : Prop :=
  t.keys p = lay.empty ∨ t.keys p = k

/-- A walk ends at the first position at which it may. -/
theorem probe_eq (hh : h < lay.size) (hp : p < lay.size) (hstop : Stops lay t k p)
    (hfirst : ∀ q < lay.size, lay.gap h q < lay.gap h p → ¬ Stops lay t k q) {fuel : Nat}
    (hi : i < lay.size) (hle : lay.gap h i ≤ lay.gap h p)
    (hfuel : lay.gap h p - lay.gap h i < fuel) : probe lay t k fuel i = p := by
  induction fuel generalizing i with
  | zero => omega
  | succ fuel ih =>
      rw [probe]
      by_cases hsame : i = p
      · rw [hsame]
        exact if_pos hstop
      · have hlt : lay.gap h i < lay.gap h p :=
          lt_of_le_of_ne hle fun heq => hsame (Layout.gap_inj hh hi hp heq)
        have hbound := Layout.gap_lt hh hp
        have hnext := Layout.gap_next hh hi (by omega)
        refine (if_neg (hfirst i hi hlt)).trans ?_
        exact ih (Layout.next_lt hi) (by omega) (by omega)

/-- A walk ends, within one round. -/
theorem Holds.probe_first (hholds : Holds lay t content) (k : κ) :
    ∃ p < lay.size, probe lay t k lay.size (lay.home k) = p ∧ Stops lay t k p ∧
      ∀ q < lay.size, lay.gap (lay.home k) q < lay.gap (lay.home k) p → ¬ Stops lay t k q := by
  classical
  obtain ⟨e, he, hempty⟩ := hholds.free
  have hexists : ∃ d, ∃ p < lay.size, Stops lay t k p ∧ lay.gap (lay.home k) p = d :=
    ⟨_, e, he, .inl hempty, rfl⟩
  obtain ⟨p, hp, hstop, hgap⟩ := Nat.find_spec hexists
  have hfirst : ∀ q < lay.size, lay.gap (lay.home k) q < lay.gap (lay.home k) p →
      ¬ Stops lay t k q := by
    intro q hq hlt hstops
    rw [hgap] at hlt
    exact Nat.find_min hexists hlt ⟨q, hq, hstops, rfl⟩
  have hself := Layout.gap_self (lay.home_lt k)
  have hbound := Layout.gap_lt (lay.home_lt k) hp
  exact ⟨p, hp, probe_eq (lay.home_lt k) hp hstop hfirst (lay.home_lt k) (by omega) (by omega),
    hstop, hfirst⟩

/-- Where a walk for an absent key ends is free. -/
theorem Holds.absent (hholds : Holds lay t content) (hk : k ≠ lay.empty) (hp : p < lay.size)
    (hfirst : ∀ q < lay.size, lay.gap (lay.home k) q < lay.gap (lay.home k) p →
      ¬ Stops lay t k q) (hempty : t.keys p = lay.empty) : content k = none := by
  cases hcontent : content k with
  | none => rfl
  | some v =>
      obtain ⟨q, hq, rfl, -⟩ := hholds.found k v hcontent
      have hne : lay.gap (lay.home (t.keys q)) p ≠ lay.gap (lay.home (t.keys q)) q := by
        intro hsame
        have hpq := Layout.gap_inj (lay.home_lt _) hp hq hsame
        exact hk (hpq ▸ hempty)
      rcases Nat.lt_or_gt_of_ne hne with hlt | hgt
      · exact absurd hempty (hholds.path q hq p hp hk hlt)
      · exact absurd (.inr rfl) (hfirst q hq hgt)

theorem Holds.find_eq (hholds : Holds lay t content) (hk : k ≠ lay.empty) :
    find lay t k = content k := by
  obtain ⟨p, hp, hprobe, hstop, hfirst⟩ := hholds.probe_first k
  unfold find
  simp only [hprobe]
  by_cases hempty : t.keys p = lay.empty
  · rw [if_pos hempty, hholds.absent hk hp hfirst hempty]
  · have hkey := hstop.resolve_left hempty
    rw [if_neg hempty, ← hkey]
    exact (hholds.kept p hp hempty).symm

/-- A new key goes to the first free position of its walk. -/
theorem Holds.insert (hholds : Holds lay t content) (hk : k ≠ lay.empty) (v : β)
    (habsent : content k = none)
    (hroom : ∀ p < lay.size, ∃ e < lay.size, e ≠ p ∧ t.keys e = lay.empty) :
    Holds lay (insert lay t k v) (Function.update content k (some v)) := by
  obtain ⟨p, hp, hprobe, hstop, hfirst⟩ := hholds.probe_first k
  have hempty : t.keys p = lay.empty := by
    rcases hstop with hempty | hkey
    · exact hempty
    · have hkept := hholds.kept p hp (hkey ▸ hk)
      rw [hkey, habsent] at hkept
      cases hkept
  have hinsert : LinearProbing.insert lay t k v =
      ⟨Function.update t.keys p k, Function.update t.vals p v⟩ := by
    unfold LinearProbing.insert
    simp only [hprobe]
    rw [if_neg (not_not.mpr hempty)]
  have hother : ∀ q < lay.size, t.keys q ≠ lay.empty → t.keys q ≠ k := by
    intro q hq hne hsame
    have hkept := hholds.kept q hq hne
    rw [hsame, habsent] at hkept
    cases hkept
  rw [hinsert]
  refine ⟨?_, ?_, ?_, ?_, ?_, ?_⟩
  · rw [Function.update_of_ne hk.symm]
    exact hholds.not_empty
  · intro k' v' hcontent
    rcases eq_or_ne k' k with rfl | hne
    · rw [Function.update_self] at hcontent
      cases hcontent
      exact ⟨p, hp, Function.update_self .., Function.update_self ..⟩
    · rw [Function.update_of_ne hne] at hcontent
      obtain ⟨q, hq, hkey, hval⟩ := hholds.found k' v' hcontent
      have hqp : q ≠ p := by
        rintro rfl
        rw [hempty] at hkey
        rw [← hkey, hholds.not_empty] at hcontent
        cases hcontent
      refine ⟨q, hq, ?_, ?_⟩
      · exact (Function.update_of_ne hqp ..).trans hkey
      · exact (Function.update_of_ne hqp ..).trans hval
  · intro q hq hne
    simp only at hne ⊢
    rcases eq_or_ne q p with rfl | hqp
    · simp only [Function.update_self]
    · rw [Function.update_of_ne hqp] at hne
      rw [Function.update_of_ne hqp, Function.update_of_ne hqp,
        Function.update_of_ne (hother q hq hne)]
      exact hholds.kept q hq hne
  · intro q hq r hr hne hsame
    simp only at hne hsame
    rcases eq_or_ne q p with rfl | hqp
    · by_contra hqr
      rw [Function.update_self, Function.update_of_ne (Ne.symm hqr)] at hsame
      exact hother r hr (hsame ▸ hk) hsame.symm
    · rw [Function.update_of_ne hqp] at hne hsame
      rcases eq_or_ne r p with rfl | hrp
      · rw [Function.update_self] at hsame
        exact absurd hsame (hother q hq hne)
      · rw [Function.update_of_ne hrp] at hsame
        exact hholds.distinct q hq r hr hne hsame
  · intro q hq r hr hne hway
    simp only at hne hway ⊢
    rcases eq_or_ne r p with rfl | hrp
    · rw [Function.update_self]
      exact hk
    · rw [Function.update_of_ne hrp]
      rcases eq_or_ne q p with rfl | hqp
      · rw [Function.update_self] at hway
        exact fun hfree => hfirst r hr hway (.inl hfree)
      · rw [Function.update_of_ne hqp] at hne hway
        exact hholds.path q hq r hr hne hway
  · obtain ⟨e, he, hep, hfree⟩ := hroom p hp
    exact ⟨e, he, (Function.update_of_ne hep ..).trans hfree⟩

theorem holds_empty (hsize : 0 < lay.size) (vals : Nat → β) :
    Holds lay ⟨fun _ => lay.empty, vals⟩ fun _ => none where
  not_empty := rfl
  found k v hcontent := by cases hcontent
  kept p _ hne := absurd rfl hne
  distinct p _ q _ hne _ := absurd rfl hne
  path p _ q _ hne _ := absurd rfl hne
  free := ⟨0, hsize, rfl⟩

/-- Fewer keys than positions leave one free besides any other. -/
theorem Holds.exists_free (hholds : Holds lay t content) {ks : Finset κ}
    (hks : ∀ k v, content k = some v → k ∈ ks) (hcard : ks.card + 2 ≤ lay.size) :
    ∀ p < lay.size, ∃ e < lay.size, e ≠ p ∧ t.keys e = lay.empty := by
  intro p hp
  by_contra hnone
  push Not at hnone
  have hle : ((Finset.range lay.size).erase p).card ≤ ks.card := by
    refine Finset.card_le_card_of_injOn t.keys (fun q hq => ?_) fun q hq r hr hsame => ?_
    · obtain ⟨hqp, hq⟩ := Finset.mem_erase.mp hq
      have hlt := Finset.mem_range.mp hq
      exact hks _ _ (hholds.kept q hlt (hnone q hlt hqp))
    · obtain ⟨hqp, hq⟩ := Finset.mem_erase.mp hq
      have hlt := Finset.mem_range.mp hq
      exact hholds.distinct q hlt r (Finset.mem_range.mp (Finset.mem_erase.mp hr).2)
        (hnone q hlt hqp) hsame
  rw [Finset.card_erase_of_mem (Finset.mem_range.mpr hp), Finset.card_range] at hle
  omega

/-! Deletion -/

/-- The state of a deletion: the hole is at `i`, and the keys up to `j` have been looked at.
The key that is left in the hole does not count; the keys whose way leads over the hole stand
after `j`. -/
structure Shifting (lay : Layout κ) (t : Table κ β) (content : κ → Option β) (i j : Nat) :
    Prop where
  hole_lt : i < lay.size
  seen_lt : j < lay.size
  stale : t.keys i ≠ lay.empty
  found : ∀ k v, content k = some v →
    ∃ p < lay.size, p ≠ i ∧ t.keys p = k ∧ t.vals p = v
  kept : ∀ p < lay.size, p ≠ i → t.keys p ≠ lay.empty → content (t.keys p) = some (t.vals p)
  distinct : ∀ p < lay.size, ∀ q < lay.size, p ≠ i → q ≠ i → t.keys p ≠ lay.empty →
    t.keys p = t.keys q → p = q
  path : ∀ p < lay.size, ∀ q < lay.size, p ≠ i → t.keys p ≠ lay.empty →
    lay.gap (lay.home (t.keys p)) q < lay.gap (lay.home (t.keys p)) p → t.keys q ≠ lay.empty
  after : ∀ p < lay.size, p ≠ i → t.keys p ≠ lay.empty →
    lay.gap (lay.home (t.keys p)) i < lay.gap (lay.home (t.keys p)) p →
    lay.gap i j < lay.gap i p

/-- A free position ahead of the walk. -/
structure Ahead (lay : Layout κ) (t : Table κ β) (i j e : Nat) : Prop where
  lt : e < lay.size
  free : t.keys e = lay.empty
  beyond : lay.gap i j < lay.gap i e

/-- At a free position the hole can be given up. -/
theorem Shifting.holds (hshifting : Shifting lay t content i j) (hnone : content lay.empty = none)
    (hnext : lay.gap i (lay.next j) = lay.gap i j + 1)
    (hfree : t.keys (lay.next j) = lay.empty) :
    Holds lay { t with keys := Function.update t.keys i lay.empty } content := by
  have hlt := Layout.next_lt hshifting.seen_lt
  have hpresent : ∀ p, p < lay.size →
      Function.update t.keys i lay.empty p ≠ lay.empty → p ≠ i ∧ t.keys p ≠ lay.empty ∧
        Function.update t.keys i lay.empty p = t.keys p := by
    intro p _ hne
    rcases eq_or_ne p i with rfl | hpi
    · exact absurd (Function.update_self ..) hne
    · rw [Function.update_of_ne hpi] at hne ⊢
      exact ⟨hpi, hne, rfl⟩
  refine ⟨hnone, ?_, ?_, ?_, ?_, ?_⟩
  · intro k v hcontent
    obtain ⟨p, hp, hpi, hkey, hval⟩ := hshifting.found k v hcontent
    exact ⟨p, hp, (Function.update_of_ne hpi ..).trans hkey, hval⟩
  · intro p hp hne
    obtain ⟨hpi, hne', hsame⟩ := hpresent p hp hne
    simp only [hsame]
    exact hshifting.kept p hp hpi hne'
  · intro p hp q hq hne hsame
    obtain ⟨hpi, hne', hpkey⟩ := hpresent p hp hne
    obtain ⟨hqi, -, hqkey⟩ := hpresent q hq fun hnone => hne (hsame.trans hnone)
    simp only [hpkey, hqkey] at hsame
    exact hshifting.distinct p hp q hq hpi hqi hne' hsame
  · intro p hp q hq hne hway
    obtain ⟨hpi, hne', hpkey⟩ := hpresent p hp hne
    simp only [hpkey] at hway
    have hq' := hshifting.path p hp q hq hpi hne' hway
    have hqi : q ≠ i := by
      rintro rfl
      -- the way to p would lead over the free position
      have hbeyond := hshifting.after p hp hpi hne' hway
      have hsum := Layout.gap_add (lay.home_lt _) hq hp hway.le
      have hnotp : lay.gap q (lay.next j) ≠ lay.gap q p := fun hsame =>
        hne' (Layout.gap_inj hq hlt hp hsame ▸ hfree)
      have hstep := Layout.gap_add hq hlt hp (by omega)
      have hfrom := Layout.gap_add_of_le (lay.home_lt (t.keys p)) hlt hp (by omega)
      exact hshifting.path p hp (lay.next j) hlt hpi hne' (by omega) hfree
    simp only
    rw [Function.update_of_ne hqi]
    exact hq'
  · exact ⟨i, hshifting.hole_lt, Function.update_self ..⟩

/-- A key that may stand in the hole is moved there, and leaves a hole itself. -/
theorem Shifting.move (hshifting : Shifting lay t content i j) (hlt : p < lay.size) (hpi : p ≠ i)
    (hkey : t.keys p ≠ lay.empty)
    (hway : lay.gap i p ≤ lay.gap (lay.home (t.keys p)) p) :
    Shifting lay { keys := Function.update t.keys i (t.keys p)
                   vals := Function.update t.vals i (t.vals p) } content p p := by
  have hpart := Layout.gap_add_of_le (lay.home_lt _) hshifting.hole_lt hlt hway
  have hpos := Layout.gap_pos hshifting.hole_lt hlt hpi
  -- what stands at a position now stood at another one before
  have hwas : ∀ q < lay.size, q ≠ p → ∃ r < lay.size, r ≠ i ∧
      Function.update t.keys i (t.keys p) q = t.keys r ∧
      Function.update t.vals i (t.vals p) q = t.vals r ∧ (r = q ∨ r = p ∧ q = i) := by
    intro q hq hqp
    rcases eq_or_ne q i with rfl | hqi
    · exact ⟨p, hlt, hpi, Function.update_self .., Function.update_self .., .inr ⟨rfl, rfl⟩⟩
    · exact ⟨q, hq, hqi, Function.update_of_ne hqi .., Function.update_of_ne hqi .., .inl rfl⟩
  have hnotEmpty : ∀ q < lay.size, t.keys q ≠ lay.empty →
      Function.update t.keys i (t.keys p) q ≠ lay.empty := by
    intro q hq hne
    rcases eq_or_ne q i with rfl | hqi
    · rwa [Function.update_self]
    · rwa [Function.update_of_ne hqi]
  refine ⟨hlt, hlt, hnotEmpty p hlt hkey, ?_, ?_, ?_, ?_, ?_⟩
  · intro k v hcontent
    obtain ⟨q, hq, hqi, hk, hv⟩ := hshifting.found k v hcontent
    rcases eq_or_ne q p with rfl | hqp
    · exact ⟨i, hshifting.hole_lt, hpi.symm, (Function.update_self ..).trans hk,
        (Function.update_self ..).trans hv⟩
    · exact ⟨q, hq, hqp, (Function.update_of_ne hqi ..).trans hk,
        (Function.update_of_ne hqi ..).trans hv⟩
  · intro q hq hqp hne
    obtain ⟨r, hr, hri, hk, hv, -⟩ := hwas q hq hqp
    simp only [hk, hv] at hne ⊢
    exact hshifting.kept r hr hri hne
  · intro q hq r hr hqp hrp hne hsame
    obtain ⟨q', hq', hqi, hqk, -, hqfrom⟩ := hwas q hq hqp
    obtain ⟨r', hr', hri, hrk, -, hrfrom⟩ := hwas r hr hrp
    simp only [hqk, hrk] at hne hsame
    have heq := hshifting.distinct q' hq' r' hr' hqi hri hne hsame
    rcases hqfrom with rfl | ⟨rfl, rfl⟩
    · rcases hrfrom with rfl | ⟨rfl, rfl⟩
      · exact heq
      · exact absurd heq hqp
    · rcases hrfrom with rfl | ⟨-, rfl⟩
      · exact absurd heq.symm hrp
      · rfl
  · intro q hq r hr hqp hne hless
    obtain ⟨q', hq', hqi, hqk, -, hqfrom⟩ := hwas q hq hqp
    simp only [hqk] at hne hless
    refine hnotEmpty r hr (hshifting.path q' hq' r hr hqi hne ?_)
    rcases hqfrom with rfl | ⟨rfl, rfl⟩
    · exact hless
    · omega
  · intro q hq hqp hne _
    rw [Layout.gap_self hlt]
    exact Layout.gap_pos hlt hq hqp

/-- A key whose way does not lead over the hole stays. -/
theorem Shifting.pass (hshifting : Shifting lay t content i j)
    (hnext : lay.gap i (lay.next j) = lay.gap i j + 1)
    (hway : ¬ lay.gap i (lay.next j) ≤ lay.gap (lay.home (t.keys (lay.next j))) (lay.next j)) :
    Shifting lay t content i (lay.next j) := by
  have hlt := Layout.next_lt hshifting.seen_lt
  refine { hshifting with seen_lt := hlt, after := ?_ }
  intro p hp hpi hne hover
  have hbeyond := hshifting.after p hp hpi hne hover
  have hnotp : lay.gap i (lay.next j) ≠ lay.gap i p := by
    intro hsame
    have hpj := Layout.gap_inj hshifting.hole_lt hlt hp hsame
    have hsum := Layout.gap_add (lay.home_lt _) hshifting.hole_lt hp hover.le
    rw [hpj] at hway
    omega
  omega

/-- The walk of a deletion ends at a free position, and the hole can be given up. -/
theorem Shifting.shift_holds {e fuel : Nat} (hshifting : Shifting lay t content i j)
    (hnone : content lay.empty = none) (hahead : Ahead lay t i j e)
    (hfuel : lay.gap j e ≤ fuel) :
    Holds lay
      { (shift lay t fuel i j).1 with
        keys := Function.update (shift lay t fuel i j).1.keys (shift lay t fuel i j).2
          lay.empty } content := by
  induction fuel generalizing t i j with
  | zero =>
      have hsame : e = j := by
        by_contra hne
        have hpos := Layout.gap_pos hshifting.seen_lt hahead.lt hne
        omega
      have hbeyond := hahead.beyond
      rw [hsame] at hbeyond
      exact absurd hbeyond (Nat.lt_irrefl _)
  | succ fuel ih =>
      have hlt := Layout.next_lt hshifting.seen_lt
      have hbound := Layout.gap_lt hshifting.hole_lt hahead.lt
      have hbeyond := hahead.beyond
      have hnext := Layout.gap_next hshifting.hole_lt hshifting.seen_lt (by omega)
      rw [shift]
      simp only
      by_cases hfree : t.keys (lay.next j) = lay.empty
      · rw [if_pos hfree]
        exact hshifting.holds hnone hnext hfree
      · have hne : lay.gap i (lay.next j) ≠ lay.gap i e := fun hsame =>
          hfree (Layout.gap_inj hshifting.hole_lt hlt hahead.lt hsame ▸ hahead.free)
        have hei : e ≠ i := fun hsame => hshifting.stale (hsame ▸ hahead.free)
        have hji : lay.next j ≠ i := by
          intro hsame
          have hself := Layout.gap_self hshifting.hole_lt
          rw [hsame] at hnext
          omega
        have hrest : lay.gap (lay.next j) e ≤ fuel := by
          have hj := Layout.gap_add hshifting.hole_lt hshifting.seen_lt hahead.lt hbeyond.le
          have hj' := Layout.gap_add hshifting.hole_lt hlt hahead.lt (by omega)
          omega
        rw [if_neg hfree]
        by_cases hway : lay.gap i (lay.next j) ≤
            lay.gap (lay.home (t.keys (lay.next j))) (lay.next j)
        · rw [if_pos hway]
          refine ih (hshifting.move hlt hji hfree hway) ⟨hahead.lt, ?_, ?_⟩ hrest
          · exact (Function.update_of_ne hei ..).trans hahead.free
          · rw [Layout.gap_self hlt]
            exact Layout.gap_pos hlt hahead.lt fun hsame => hfree (hsame ▸ hahead.free)
        · rw [if_neg hway]
          exact ih (hshifting.pass hnext hway) ⟨hahead.lt, hahead.free, by omega⟩ hrest

/-- A key is taken out of the table, and no other. -/
theorem Holds.erase (hholds : Holds lay t content) (hk : k ≠ lay.empty) :
    Holds lay (erase lay t k) (Function.update content k none) := by
  obtain ⟨p, hp, hprobe, hstop, hfirst⟩ := hholds.probe_first k
  unfold LinearProbing.erase
  simp only [hprobe]
  by_cases hempty : t.keys p = lay.empty
  · rw [if_pos hempty, ← hholds.absent hk hp hfirst hempty, Function.update_eq_self]
    exact hholds
  · rw [if_neg hempty]
    have hkey := hstop.resolve_left hempty
    obtain ⟨e, he, hfree⟩ := hholds.free
    have hep : e ≠ p := fun hsame => hempty (hsame ▸ hfree)
    have hself := Layout.gap_self hp
    have hshifting : Shifting lay t (Function.update content k none) p p := by
      have hother : ∀ q < lay.size, q ≠ p → t.keys q ≠ lay.empty → t.keys q ≠ k :=
        fun q hq hqp hne hsame =>
          hqp (hholds.distinct q hq p hp hne (hsame.trans hkey.symm))
      refine ⟨hp, hp, hempty, ?_, ?_, ?_, ?_, ?_⟩
      · intro k' v hcontent
        rcases eq_or_ne k' k with rfl | hne
        · rw [Function.update_self] at hcontent
          cases hcontent
        · rw [Function.update_of_ne hne] at hcontent
          obtain ⟨q, hq, hqk, hqv⟩ := hholds.found k' v hcontent
          exact ⟨q, hq, fun hsame => hne (by rw [← hqk, hsame, hkey]), hqk, hqv⟩
      · intro q hq hqp hne
        rw [Function.update_of_ne (hother q hq hqp hne)]
        exact hholds.kept q hq hne
      · exact fun q hq r hr _ _ hne hsame => hholds.distinct q hq r hr hne hsame
      · exact fun q hq r hr _ hne hway => hholds.path q hq r hr hne hway
      · intro q hq hqp _ _
        rw [hself]
        exact Layout.gap_pos hp hq hqp
    have hnone : Function.update content k none lay.empty = none := by
      rw [Function.update_of_ne hk.symm]
      exact hholds.not_empty
    refine hshifting.shift_holds hnone ⟨he, hfree, ?_⟩ (Layout.gap_lt hp he).le
    rw [hself]
    exact Layout.gap_pos hp he hep

end AsterVec.LinearProbing

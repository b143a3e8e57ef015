import Mathlib.Data.Finset.Card
import Mathlib.Data.List.Destutter
import Mathlib.Data.List.Sort
import Mathlib.Data.Prod.Lex

/-!
Lists in the order of a value from which elements with the key of the element before are
removed.  Elements of one key have one value, but elements of other keys may have it too, and
then they may stand between them.
-/

namespace AsterVec.SortedRuns

variable {α κ β : Type} [DecidableEq κ] [LinearOrder β] {key : α → κ} {value : α → β}
  {l m : List α} {a b : α}

/-- Keep the first element of every run of one key. -/
def uniqueBy (key : α → κ) (l : List α) : List α := l.destutter fun a b => key a ≠ key b

/-- The keys of the elements below a value. -/
def keysBelow (key : α → κ) (value : α → β) (l : List α) (t : β) : Finset κ :=
  ((l.filter (value · < t)).map key).toFinset

theorem uniqueBy_sublist : (uniqueBy key l).Sublist l := List.destutter_sublist _ l

theorem isChain_uniqueBy : (uniqueBy key l).IsChain fun a b => key a ≠ key b :=
  List.isChain_destutter _ l

/-- The runs of a list that starts with `a`. -/
def uniqueFrom (key : α → κ) (a : α) (l : List α) : List α :=
  l.destutter' (fun a b => key a ≠ key b) a

theorem uniqueBy_cons (a : α) (l : List α) : uniqueBy key (a :: l) = uniqueFrom key a l := rfl

theorem uniqueFrom_cons_of_ne (hne : key a ≠ key b) (l : List α) :
    uniqueFrom key a (b :: l) = a :: uniqueFrom key b l := by
  unfold uniqueFrom
  rw [List.destutter'_cons, if_pos hne]

theorem uniqueFrom_cons_of_eq (hsame : key a = key b) (l : List α) :
    uniqueFrom key a (b :: l) = uniqueFrom key a l := by
  unfold uniqueFrom
  rw [List.destutter'_cons, if_neg (not_not.mpr hsame)]

theorem exists_uniqueFrom_eq_cons (key : α → κ) (l : List α) (a : α) :
    ∃ tail, uniqueFrom key a l = a :: tail := by
  induction l generalizing a with
  | nil => exact ⟨[], rfl⟩
  | cons b l ih =>
      by_cases hne : key a ≠ key b
      · exact ⟨_, uniqueFrom_cons_of_ne hne l⟩
      · rw [uniqueFrom_cons_of_eq (not_not.mp hne)]
        exact ih a

theorem exists_mem_uniqueFrom (l : List α) (a : α) :
    ∀ b ∈ a :: l, ∃ c ∈ uniqueFrom key a l, key c = key b := by
  induction l generalizing a with
  | nil =>
      intro b hb
      exact ⟨b, hb, rfl⟩
  | cons next l ih =>
      intro b hb
      by_cases hne : key a ≠ key next
      · rw [uniqueFrom_cons_of_ne hne]
        rcases List.mem_cons.mp hb with rfl | hlater
        · exact ⟨b, List.mem_cons_self, rfl⟩
        · obtain ⟨c, hc, hkey⟩ := ih next b hlater
          exact ⟨c, List.mem_cons_of_mem _ hc, hkey⟩
      · have hsame := not_not.mp hne
        rw [uniqueFrom_cons_of_eq hsame]
        rcases List.mem_cons.mp hb with rfl | hlater
        · exact ih b b List.mem_cons_self
        · rcases List.mem_cons.mp hlater with rfl | hlast
          · obtain ⟨c, hc, hkey⟩ := ih a a List.mem_cons_self
            exact ⟨c, hc, hkey.trans hsame⟩
          · exact ih a b (List.mem_cons_of_mem _ hlast)

/-- No key is lost. -/
theorem exists_mem_uniqueBy (hmem : a ∈ l) : ∃ b ∈ uniqueBy key l, key b = key a := by
  cases l with
  | nil => cases hmem
  | cons first l => exact exists_mem_uniqueFrom l first a hmem

theorem map_uniqueBy_toFinset :
    ((uniqueBy key l).map key).toFinset = (l.map key).toFinset := by
  ext k
  simp only [List.mem_toFinset, List.mem_map]
  constructor
  · rintro ⟨b, hb, rfl⟩
    exact ⟨b, uniqueBy_sublist.subset hb, rfl⟩
  · rintro ⟨a, ha, rfl⟩
    exact exists_mem_uniqueBy ha

theorem uniqueFrom_append (l : List α) (a : α) (hapart : ∀ c ∈ a :: l, key c ≠ key b) :
    uniqueFrom key a (l ++ b :: m) = uniqueFrom key a l ++ uniqueFrom key b m := by
  induction l generalizing a with
  | nil => exact uniqueFrom_cons_of_ne (hapart a List.mem_cons_self) m
  | cons next l ih =>
      rw [List.cons_append]
      by_cases hne : key a ≠ key next
      · rw [uniqueFrom_cons_of_ne hne, uniqueFrom_cons_of_ne hne,
          ih next fun c hc => hapart c (List.mem_cons_of_mem _ hc), List.cons_append]
      · have hsame := not_not.mp hne
        rw [uniqueFrom_cons_of_eq hsame, uniqueFrom_cons_of_eq hsame]
        refine ih a fun c hc => hapart c ?_
        rcases List.mem_cons.mp hc with rfl | hlater
        · exact List.mem_cons_self
        · exact List.mem_cons_of_mem _ (List.mem_cons_of_mem _ hlater)

/-- Runs do not reach over a key that is not on the left. -/
theorem uniqueBy_append (hapart : ∀ a ∈ l, key a ≠ key b) :
    uniqueBy key (l ++ b :: m) = uniqueBy key l ++ uniqueBy key (b :: m) := by
  cases l with
  | nil => rfl
  | cons first l => exact uniqueFrom_append l first hapart

/-! Repeated keys -/

theorem exists_repeat (hrepeat : ¬ (l.map key).Nodup) :
    ∃ before first between last after,
      l = before ++ first :: (between ++ last :: after) ∧ key first = key last := by
  induction l with
  | nil => exact absurd List.nodup_nil hrepeat
  | cons a l ih =>
      by_cases hmem : key a ∈ l.map key
      · obtain ⟨last, hlast, hkey⟩ := List.mem_map.mp hmem
        obtain ⟨between, after, rfl⟩ := List.append_of_mem hlast
        exact ⟨[], a, between, last, after, rfl, hkey.symm⟩
      · have hlater : ¬ (l.map key).Nodup := fun hnodup =>
          hrepeat (List.nodup_cons.mpr ⟨hmem, hnodup⟩)
        obtain ⟨before, first, between, last, after, rfl, hkey⟩ := ih hlater
        exact ⟨a :: before, first, between, last, after, rfl, hkey⟩

/-- Two elements of one key, and one of another key that has their value: with room for three
elements above the keys below. -/
def Interleaves (key : α → κ) (value : α → β) (room : Nat) (l : List α) : Prop :=
  ∃ k t, 2 ≤ l.countP (fun a => key a = k ∧ value a = t) ∧
    (∃ b ∈ l, key b ≠ k ∧ value b = t) ∧ (keysBelow key value l t).card + 3 ≤ room

/-- A key is repeated among the first elements only where elements of another key have its
value. -/
theorem interleaves_of_repeat {room : Nat} (hvalue : ∀ a ∈ l, ∀ b ∈ l, key a = key b →
      value a = value b) (hperm : m.Perm l)
    (hsorted : m.Pairwise fun a b => value a ≤ value b)
    (hrepeat : ¬ (((uniqueBy key m).take room).map key).Nodup) :
    Interleaves key value room l := by
  obtain ⟨before, first, between, last, after, htake, hkey⟩ := exists_repeat hrepeat
  have hunique : uniqueBy key m =
      before ++ first :: (between ++ last :: (after ++ (uniqueBy key m).drop room)) := by
    conv_lhs => rw [← List.take_append_drop room (uniqueBy key m), htake]
    simp
  have hmem : ∀ a ∈ uniqueBy key m, a ∈ l := fun a ha =>
    hperm.mem_iff.mp (uniqueBy_sublist.subset ha)
  have hchain : (uniqueBy key m).IsChain fun a b => key a ≠ key b := isChain_uniqueBy
  have horder : (uniqueBy key m).Pairwise fun a b => value a ≤ value b :=
    hsorted.sublist uniqueBy_sublist
  have hsame : value first = value last :=
    hvalue _ (hmem _ (by rw [hunique]; simp)) _ (hmem _ (by rw [hunique]; simp)) hkey
  -- what stands between the two has their value, by the order
  cases between with
  | nil =>
      rw [hunique] at hchain
      exact absurd hkey (List.isChain_cons_cons.mp (List.isChain_append.mp hchain).2.1).1
  | cons middle between =>
      have hmiddle : key first ≠ key middle := by
        rw [hunique] at hchain
        exact (List.isChain_cons_cons.mp (List.isChain_append.mp hchain).2.1).1
      have hfrom : ∀ a ∈ middle :: between ++ last :: (after ++ (uniqueBy key m).drop room),
          value first ≤ value a := by
        rw [hunique] at horder
        exact (List.pairwise_cons.mp (List.pairwise_append.mp horder).2.1).1
      have hlevel : value middle = value first := by
        refine le_antisymm ?_ (hfrom middle (by simp))
        rw [hsame]
        rw [hunique] at horder
        have hlater := (List.pairwise_cons.mp (List.pairwise_append.mp horder).2.1).2
        exact (List.pairwise_cons.mp hlater).1 last (by simp)
      refine ⟨key first, value first, ?_, ⟨middle, hmem _ (by rw [hunique]; simp),
        hmiddle.symm, hlevel⟩, ?_⟩
      · rw [← hperm.countP_eq]
        refine le_trans ?_ (uniqueBy_sublist : (uniqueBy key m).Sublist m).countP_le
        rw [hunique, List.countP_append, List.countP_cons, List.countP_append, List.countP_cons]
        simp only [hkey, hsame]
        simp
        omega
      · have hbelow : keysBelow key value l (value first) ⊆ (before.map key).toFinset := by
          intro k hk
          obtain ⟨a, ha, rfl⟩ := List.mem_map.mp (List.mem_toFinset.mp hk)
          obtain ⟨hal, hless⟩ := List.mem_filter.mp ha
          have hless := of_decide_eq_true hless
          obtain ⟨c, hc, hckey⟩ := exists_mem_uniqueBy (κ := κ) (hperm.mem_iff.mpr hal)
          have hcvalue : value c = value a := hvalue c (hmem c hc) a hal hckey
          rw [List.mem_toFinset, ← hckey]
          refine List.mem_map_of_mem ?_
          rw [hunique] at hc
          rcases List.mem_append.mp hc with hbefore | hlater
          · exact hbefore
          · exfalso
            rw [← hcvalue] at hless
            rcases List.mem_cons.mp hlater with rfl | hrest
            · exact lt_irrefl _ hless
            · exact absurd hless (not_lt.mpr (hfrom c hrest))
        have hcard := (Finset.card_le_card hbelow).trans (List.toFinset_card_le _)
        have hlength := congrArg List.length htake
        simp only [List.length_take, List.length_append, List.length_cons] at hlength
        rw [List.length_map] at hcard
        omega

/-- Where keys have their own values, nothing interleaves. -/
theorem not_interleaves {room : Nat} (hvalue : ∀ a ∈ l, ∀ b ∈ l, value a = value b →
      key a = key b) : ¬ Interleaves key value room l := by
  rintro ⟨k, t, htwice, ⟨b, hb, hne, hlevel⟩, -⟩
  obtain ⟨a, ha, hsame⟩ := List.countP_pos_iff.mp (Nat.lt_of_lt_of_le Nat.zero_lt_two htwice)
  obtain ⟨hkey, hvalue'⟩ := of_decide_eq_true hsame
  exact hne ((hvalue b hb a ha (hlevel.trans hvalue'.symm)).trans hkey)

/-- How many of the first elements there are, where their keys do not repeat. -/
theorem length_take_uniqueBy {room : Nat} (hperm : m.Perm l)
    (hnodup : (((uniqueBy key m).take room).map key).Nodup) :
    ((uniqueBy key m).take room).length = min room (l.map key).toFinset.card := by
  have hkeys : ((uniqueBy key m).map key).toFinset = (l.map key).toFinset :=
    map_uniqueBy_toFinset.trans (List.toFinset_eq_of_perm _ _ (hperm.map key))
  have hcount : (((uniqueBy key m).take room).map key).toFinset.card =
      ((uniqueBy key m).take room).length := by
    rw [List.toFinset_card_of_nodup hnodup, List.length_map]
  rcases Nat.le_total (uniqueBy key m).length room with hfew | hmany
  · rw [List.take_of_length_le hfew, hkeys] at hcount
    rw [List.take_of_length_le hfew, hcount, Nat.min_eq_right hfew]
  · have hroom : ((uniqueBy key m).take room).length = room := List.length_take_of_le hmany
    have hsubset : (((uniqueBy key m).take room).map key).toFinset ⊆ (l.map key).toFinset := by
      rw [← hkeys]
      intro k hk
      rw [List.mem_toFinset] at hk ⊢
      exact (List.Sublist.map key (List.take_sublist room _)).subset hk
    have hcard := Finset.card_le_card hsubset
    rw [hcount, hroom] at hcard
    rw [hroom, Nat.min_eq_left hcard]

/-! Orders that interleave -/

section

variable {κ : Type} [LinearOrder κ] {key : α → κ}

/-- Where an element stands when elements of one value are ordered by their keys. -/
def place (key : α → κ) (value : α → β) (a : α) : β ×ₗ κ := toLex (value a, key a)

theorem value_le_of_place_le (hle : place key value a ≤ place key value b) :
    value a ≤ value b := by
  rcases Prod.Lex.toLex_le_toLex.mp hle with hlt | ⟨heq, -⟩
  · exact hlt.le
  · exact heq.le

theorem pairwise_place_lt (hplaced : l.Pairwise fun a b => place key value a ≤ place key value b)
    (hchain : l.IsChain fun a b => key a ≠ key b) :
    l.Pairwise fun a b => place key value a < place key value b := by
  induction l with
  | nil => exact .nil
  | cons a l ih =>
      obtain ⟨hfirst, hrest⟩ := List.pairwise_cons.mp hplaced
      cases l with
      | nil => exact List.pairwise_singleton _ _
      | cons b l =>
          obtain ⟨hne, hlater⟩ := List.isChain_cons_cons.mp hchain
          have hless : place key value a < place key value b := by
            refine lt_of_le_of_ne (hfirst b List.mem_cons_self) fun hsame => hne ?_
            exact congrArg (fun spot : β ×ₗ κ => (ofLex spot).2) hsame
          refine List.pairwise_cons.mpr ⟨fun c hc => ?_, ih hrest hlater⟩
          rcases List.mem_cons.mp hc with rfl | hfar
          · exact hless
          · exact hless.trans_le ((List.pairwise_cons.mp hrest).1 c hfar)

/-- In this order the elements of a key stand together. -/
theorem nodup_uniqueBy_of_place (hvalue : ∀ a ∈ l, ∀ b ∈ l, key a = key b → value a = value b)
    (hplaced : l.Pairwise fun a b => place key value a ≤ place key value b) :
    ((uniqueBy key l).map key).Nodup := by
  have hlt := pairwise_place_lt (hplaced.sublist uniqueBy_sublist)
    isChain_uniqueBy
  rw [List.nodup_iff_pairwise_ne, List.pairwise_map]
  refine hlt.imp_of_mem fun {a b} ha hb hless hsame => ?_
  have hlevel := hvalue a (uniqueBy_sublist.subset ha) b (uniqueBy_sublist.subset hb) hsame
  unfold place at hless
  rw [hlevel, hsame] at hless
  exact lt_irrefl _ hless

theorem exists_grouped (key : α → κ) (value : α → β) (l : List α)
    (hvalue : ∀ a ∈ l, ∀ b ∈ l, key a = key b → value a = value b) :
    ∃ m, m.Perm l ∧ (m.Pairwise fun a b => value a ≤ value b) ∧
      (uniqueBy key m).length = (l.map key).toFinset.card := by
  have hperm := List.perm_insertionSort (Order.Preimage (place key value) (· ≤ ·)) l
  have hplaced := List.pairwise_insertionSort (Order.Preimage (place key value) (· ≤ ·)) l
  generalize l.insertionSort (Order.Preimage (place key value) (· ≤ ·)) = m at hperm hplaced
  refine ⟨m, hperm, hplaced.imp value_le_of_place_le, ?_⟩
  have hnodup := nodup_uniqueBy_of_place (fun a ha b hb => hvalue a (hperm.mem_iff.mp ha) b
    (hperm.mem_iff.mp hb)) hplaced
  rw [← List.length_map, ← List.toFinset_card_of_nodup hnodup, map_uniqueBy_toFinset]
  exact congrArg Finset.card (List.toFinset_eq_of_perm _ _ (hperm.map key))

/-- Three elements that interleave, taken out. -/
theorem exists_three {k : κ} {t : β} (htwice : 2 ≤ l.countP fun a => key a = k ∧ value a = t)
    (hother : ∃ b ∈ l, key b ≠ k ∧ value b = t) :
    ∃ a b c rest, l.Perm (a :: b :: c :: rest) ∧ key a = k ∧ key c = k ∧ key b ≠ k ∧
      value a = t ∧ value b = t ∧ value c = t := by
  have hsplit := List.filter_append_perm (fun a => decide (key a = k ∧ value a = t)) l
  rw [List.countP_eq_length_filter] at htwice
  obtain ⟨b, hb, hne, hlevel⟩ := hother
  have hout : b ∈ l.filter fun a => !decide (key a = k ∧ value a = t) :=
    List.mem_filter.mpr ⟨hb, by simp [hne]⟩
  obtain ⟨before, after, houtside⟩ := List.append_of_mem hout
  rw [houtside] at hsplit
  have hinside : ∀ a ∈ l.filter fun a => decide (key a = k ∧ value a = t),
      key a = k ∧ value a = t := fun a ha => of_decide_eq_true (List.mem_filter.mp ha).2
  match l.filter fun a => decide (key a = k ∧ value a = t), htwice, hsplit, hinside with
  | a :: c :: rest, _, hsplit, hinside =>
      obtain ⟨hka, hta⟩ := hinside a (by simp)
      obtain ⟨hkc, htc⟩ := hinside c (by simp)
      refine ⟨a, b, c, rest ++ (before ++ after), ?_, hka, hkc, hne, hta, hlevel, htc⟩
      refine hsplit.symm.trans (List.Perm.cons a ?_)
      have hmiddle : (rest ++ (before ++ b :: after)).Perm (b :: (rest ++ (before ++ after))) := by
        rw [← List.append_assoc, ← List.append_assoc]
        exact List.perm_middle
      exact (List.Perm.cons c hmiddle).trans (List.Perm.swap b c _)

/-- Where keys are interleaved, some order repeats a key among the first elements. -/
theorem exists_repeat_of_interleaves {room : Nat} (hvalue : ∀ a ∈ l, ∀ b ∈ l,
      key a = key b → value a = value b) (hinterleaves : Interleaves key value room l) :
    ∃ m, m.Perm l ∧ (m.Pairwise fun a b => value a ≤ value b) ∧
      ¬ (((uniqueBy key m).take room).map key).Nodup := by
  obtain ⟨k, t, htwice, hother, hroom⟩ := hinterleaves
  obtain ⟨a, b, c, rest, hperm, hka, hkc, hkb, hta, htb, htc⟩ := exists_three htwice hother
  have hmem : ∀ x ∈ rest, x ∈ l := fun x hx => hperm.mem_iff.mpr (by simp [hx])
  obtain ⟨low, hlow, hlowSorted, hlowLength⟩ := exists_grouped key value
    (rest.filter (value · < t)) fun x hx y hy =>
      hvalue x (hmem x (List.mem_filter.mp hx).1) y (hmem y (List.mem_filter.mp hy).1)
  obtain ⟨high, hhigh, hhighSorted, -⟩ := exists_grouped key value
    (rest.filter fun x => !decide (value x < t)) fun x hx y hy =>
      hvalue x (hmem x (List.mem_filter.mp hx).1) y (hmem y (List.mem_filter.mp hy).1)
  have hlowValue : ∀ x ∈ low, value x < t := fun x hx =>
    of_decide_eq_true (List.mem_filter.mp (hlow.mem_iff.mp hx)).2
  have hhighValue : ∀ x ∈ high, t ≤ value x := fun x hx => by
    have hnot := (List.mem_filter.mp (hhigh.mem_iff.mp hx)).2
    simpa using hnot
  have hlowMem : ∀ x ∈ low, x ∈ l := fun x hx =>
    hmem x (List.mem_filter.mp (hlow.mem_iff.mp hx)).1
  refine ⟨low ++ a :: b :: c :: high, ?_, ?_, ?_⟩
  · have hrest : (low ++ high).Perm rest :=
      (hlow.append hhigh).trans (List.filter_append_perm _ rest)
    have hmoved : (low ++ a :: b :: c :: high).Perm (a :: b :: c :: (low ++ high)) :=
      List.perm_append_comm_assoc low [a, b, c] high
    exact hmoved.trans ((List.Perm.append_left [a, b, c] hrest).trans hperm.symm)
  · have hthree : (a :: b :: c :: high).Pairwise fun a b => value a ≤ value b := by
      refine List.pairwise_cons.mpr ⟨?_, List.pairwise_cons.mpr ⟨?_, List.pairwise_cons.mpr
        ⟨?_, hhighSorted⟩⟩⟩
      · simp only [List.mem_cons, hta]
        rintro x (rfl | rfl | hx)
        · exact htb.ge
        · exact htc.ge
        · exact hhighValue x hx
      · simp only [List.mem_cons, htb]
        rintro x (rfl | hx)
        · exact htc.ge
        · exact hhighValue x hx
      · rw [htc]
        exact hhighValue
    refine List.pairwise_append.mpr ⟨hlowSorted, hthree, fun x hx y hy => ?_⟩
    refine (hlowValue x hx).le.trans ?_
    rw [← hta]
    rcases List.mem_cons.mp hy with rfl | hlater
    · exact le_rfl
    · exact (List.pairwise_cons.mp hthree).1 y hlater
  · have hbelow : keysBelow key value l t =
        ((rest.filter (value · < t)).map key).toFinset := by
      unfold keysBelow
      refine List.toFinset_eq_of_perm _ _ (((hperm.filter _).trans ?_).map key)
      simp [hta, htb, htc]
    obtain ⟨tail, htail⟩ := exists_uniqueFrom_eq_cons key high c
    have hunique : uniqueBy key (low ++ a :: b :: c :: high) =
        uniqueBy key low ++ a :: b :: c :: tail := by
      have hapart : ∀ x ∈ low, key x ≠ key a := fun x hx hsame =>
        absurd (hvalue x (hlowMem x hx) a (hperm.mem_iff.mpr (by simp)) hsame)
          ((hlowValue x hx).trans_eq hta.symm).ne
      rw [uniqueBy_append hapart, uniqueBy_cons,
        uniqueFrom_cons_of_ne (by rw [hka]; exact hkb.symm), uniqueFrom_cons_of_ne (by rw [hkc]; exact hkb), htail]
    have hfits : (uniqueBy key low).length + 3 ≤ room := by
      rw [hlowLength, ← hbelow]
      exact hroom
    obtain ⟨more, rfl⟩ := Nat.exists_eq_add_of_le hfits
    rw [hunique, Nat.add_assoc, List.take_length_add_append, List.map_append]
    intro hnodup
    have hthree := (List.nodup_append.mp hnodup).2.1
    rw [Nat.add_comm 3 more] at hthree
    simp [hka, hkc] at hthree

end

end AsterVec.SortedRuns

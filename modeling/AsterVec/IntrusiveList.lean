import Mathlib.Data.List.Nodup
import Mathlib.Logic.Function.Basic

/-!
Doubly linked lists whose links are stored with the elements.  `nil` is the index that no
element has.
-/

namespace AsterVec.IntrusiveList

structure Links where
  next : Nat → Nat
  prev : Nat → Nat
  head : Nat
  tail : Nat

/-- Put an element in front. -/
def linkFront (nil : Nat) (links : Links) (x : Nat) : Links :=
  let links := { links with
    prev := Function.update links.prev x nil, next := Function.update links.next x links.head }
  let links :=
    if links.head ≠ nil then { links with prev := Function.update links.prev links.head x }
    else links
  let links := { links with head := x }
  if links.tail = nil then { links with tail := x } else links

/-- Take an element out. -/
def unlink (nil : Nat) (links : Links) (x : Nat) : Links :=
  let p := links.prev x
  let n := links.next x
  let links :=
    if p ≠ nil then { links with next := Function.update links.next p n }
    else { links with head := n }
  let links :=
    if n ≠ nil then { links with prev := Function.update links.prev n p }
    else { links with tail := p }
  { links with
    prev := Function.update links.prev x nil, next := Function.update links.next x nil }

def moveToFront (nil : Nat) (links : Links) (x : Nat) : Links :=
  if links.head = x then links else linkFront nil (unlink nil links x) x

/-- The links are those of the list `l`. -/
structure Linked (nil : Nat) (links : Links) (l : List Nat) : Prop where
  nodup : l.Nodup
  nil_not_mem : nil ∉ l
  head_eq : links.head = l.head?.getD nil
  tail_eq : links.tail = l.getLast?.getD nil
  next_eq : ∀ before x after, l = before ++ x :: after → links.next x = after.head?.getD nil
  prev_eq : ∀ before x after, l = before ++ x :: after →
    links.prev x = before.getLast?.getD nil

/-- The elements of `l` follow one another from `first` on. -/
def Chained (nil : Nat) (next : Nat → Nat) : Nat → List Nat → Prop
  | first, [] => first = nil
  | first, x :: l => first = x ∧ Chained nil next (next x) l

variable {nil x y : Nat} {links : Links} {l before after : List Nat}

theorem linked_nil (hhead : links.head = nil) (htail : links.tail = nil) :
    Linked nil links [] where
  nodup := List.nodup_nil
  nil_not_mem := List.not_mem_nil
  head_eq := hhead
  tail_eq := htail
  next_eq before x after heq := by simp at heq
  prev_eq before x after heq := by simp at heq

/-- Only the links of the elements count. -/
theorem Linked.congr {links' : Links} (hlinked : Linked nil links l)
    (hnext : ∀ x ∈ l, links'.next x = links.next x)
    (hprev : ∀ x ∈ l, links'.prev x = links.prev x) (hhead : links'.head = links.head)
    (htail : links'.tail = links.tail) : Linked nil links' l where
  nodup := hlinked.nodup
  nil_not_mem := hlinked.nil_not_mem
  head_eq := hhead.trans hlinked.head_eq
  tail_eq := htail.trans hlinked.tail_eq
  next_eq before x after heq :=
    (hnext x (by simp [heq])).trans (hlinked.next_eq before x after heq)
  prev_eq before x after heq :=
    (hprev x (by simp [heq])).trans (hlinked.prev_eq before x after heq)

theorem Chained.congr {next next' : Nat → Nat} {first : Nat} (hchained : Chained nil next first l)
    (hnext : ∀ x ∈ l, next' x = next x) : Chained nil next' first l := by
  induction l generalizing first with
  | nil => exact hchained
  | cons x l ih =>
      obtain ⟨hfirst, hrest⟩ := hchained
      refine ⟨hfirst, ih ?_ fun y hy => hnext y (List.mem_cons_of_mem x hy)⟩
      rw [hnext x List.mem_cons_self]
      exact hrest

/-! Putting in front -/

theorem linkFront_next :
    (linkFront nil links x).next = Function.update links.next x links.head := by
  unfold linkFront
  simp only
  split_ifs <;> rfl

theorem linkFront_head : (linkFront nil links x).head = x := by
  unfold linkFront
  simp only
  split_ifs <;> rfl

theorem linkFront_tail :
    (linkFront nil links x).tail = if links.tail = nil then x else links.tail := by
  unfold linkFront
  simp only
  split_ifs <;> first | rfl | contradiction

theorem linkFront_prev : (linkFront nil links x).prev =
    if links.head ≠ nil then
      Function.update (Function.update links.prev x nil) links.head x
    else Function.update links.prev x nil := by
  unfold linkFront
  simp only
  split_ifs <;> first | rfl | contradiction

theorem Linked.linkFront (hlinked : Linked nil links l) (hx : x ∉ l) (hnil : x ≠ nil) :
    Linked nil (linkFront nil links x) (x :: l) := by
  have hhead := hlinked.head_eq
  refine ⟨List.nodup_cons.mpr ⟨hx, hlinked.nodup⟩, ?_, linkFront_head, ?_, ?_, ?_⟩
  · simp only [List.mem_cons, not_or]
    exact ⟨hnil.symm, hlinked.nil_not_mem⟩
  · rw [linkFront_tail, hlinked.tail_eq]
    cases l with
    | nil => simp
    | cons first rest =>
        have hlast : (first :: rest).getLast?.getD nil ≠ nil := by
          rw [List.getLast?_eq_some_getLast (by simp), Option.getD_some]
          intro hsame
          exact hlinked.nil_not_mem (hsame ▸ List.getLast_mem _)
        rw [if_neg hlast, List.getLast?_cons_cons]
  · intro before y after heq
    rw [linkFront_next]
    cases before with
    | nil =>
        obtain ⟨rfl, rfl⟩ := List.cons.inj heq
        rw [Function.update_self, hhead]
    | cons first before =>
        have hrest : l = before ++ y :: after := (List.cons.inj heq).2
        have hy : y ∈ l := by
          rw [hrest]
          simp
        have hyx : y ≠ x := fun hsame => hx (hsame ▸ hy)
        rw [Function.update_of_ne hyx]
        exact hlinked.next_eq before y after hrest
  · intro before y after heq
    rw [linkFront_prev]
    cases before with
    | nil =>
        obtain ⟨rfl, rfl⟩ := List.cons.inj heq
        split
        · rename_i hsome
          have hne : x ≠ links.head := by
            rintro rfl
            rw [hhead] at hsome hx
            cases l with
            | nil => exact hsome rfl
            | cons first rest => exact hx (by simp)
          rw [Function.update_of_ne hne, Function.update_self]
          rfl
        · rw [Function.update_self]
          rfl
    | cons first before =>
        obtain rfl : x = first := (List.cons.inj heq).1
        have hrest : l = before ++ y :: after := (List.cons.inj heq).2
        have hy : y ∈ l := by
          rw [hrest]
          simp
        have hyx : y ≠ x := fun hsame => hx (hsame ▸ hy)
        have hynil : y ≠ nil := fun hsame => hlinked.nil_not_mem (hsame ▸ hy)
        cases before with
        | nil =>
            have hfirst : links.head = y := by
              rw [hhead, hrest]
              rfl
            rw [hfirst, if_pos hynil, Function.update_self]
            rfl
        | cons second before =>
            have hfirst : y ≠ links.head := by
              have hnodup := hlinked.nodup
              rw [hrest] at hnodup
              rw [hhead, hrest]
              intro hsame
              obtain rfl : y = second := hsame
              exact (List.nodup_cons.mp hnodup).1 (by simp)
            have hold := hlinked.prev_eq _ y after hrest
            rw [List.getLast?_cons_cons]
            split
            · rw [Function.update_of_ne hfirst, Function.update_of_ne hyx, hold]
            · rw [Function.update_of_ne hyx, hold]

/-! Taking out -/

theorem unlink_next : (unlink nil links x).next = Function.update
    (if links.prev x ≠ nil then Function.update links.next (links.prev x) (links.next x)
      else links.next) x nil := by
  unfold unlink
  simp only
  split_ifs <;> rfl

theorem unlink_prev : (unlink nil links x).prev = Function.update
    (if links.next x ≠ nil then Function.update links.prev (links.next x) (links.prev x)
      else links.prev) x nil := by
  unfold unlink
  simp only
  split_ifs <;> rfl

theorem unlink_head :
    (unlink nil links x).head = if links.prev x ≠ nil then links.head else links.next x := by
  unfold unlink
  simp only
  split_ifs <;> rfl

theorem unlink_tail :
    (unlink nil links x).tail = if links.next x ≠ nil then links.tail else links.prev x := by
  unfold unlink
  simp only
  split_ifs <;> rfl

/-- The end of a list is one of its elements. -/
theorem getD_getLast?_ne_nil (hnil : nil ∉ l) (hne : l ≠ []) : l.getLast?.getD nil ≠ nil := by
  rw [List.getLast?_eq_some_getLast hne, Option.getD_some]
  exact fun hsame => hnil (hsame ▸ List.getLast_mem hne)

theorem getD_head?_ne_nil (hnil : nil ∉ l) (hne : l ≠ []) : l.head?.getD nil ≠ nil := by
  rw [List.head?_eq_some_head hne, Option.getD_some]
  exact fun hsame => hnil (hsame ▸ List.head_mem hne)

/-- An element of a list whose middle is taken out stands before it or after it. -/
theorem split_cases {left right : List Nat} (heq : before ++ after = left ++ y :: right) :
    (∃ mid, before = left ++ y :: mid ∧ right = mid ++ after) ∨
      ∃ mid, left = before ++ mid ∧ after = mid ++ y :: right := by
  rcases List.append_eq_append_iff.mp heq with ⟨mid, hleft, hafter⟩ | ⟨mid, hbefore, hright⟩
  · exact .inr ⟨mid, hleft, hafter⟩
  · cases mid with
    | nil =>
        rw [List.append_nil] at hbefore
        exact .inr ⟨[], by rw [hbefore, List.append_nil], hright.symm⟩
    | cons first mid =>
        obtain ⟨rfl, hrest⟩ := List.cons.inj hright
        exact .inl ⟨mid, hbefore, hrest⟩

theorem patched_apply {f : Nat → Nat} {p v : Nat} (hy : y ≠ nil) :
    (if p ≠ nil then Function.update f p v else f) y = if y = p then v else f y := by
  split
  · exact Function.update_apply f p v y
  · rename_i hnone
    obtain rfl := not_not.mp hnone
    rw [if_neg hy]

theorem Linked.unlink (hlinked : Linked nil links (before ++ x :: after)) :
    Linked nil (unlink nil links x) (before ++ after) := by
  have hprev := hlinked.prev_eq before x after rfl
  have hnext := hlinked.next_eq before x after rfl
  have hnodup := hlinked.nodup
  have hout := hlinked.nil_not_mem
  simp only [List.mem_append, List.mem_cons, not_or] at hout
  obtain ⟨hbefore, -, hafter⟩ := hout
  have hkept : ∀ left y right, before ++ after = left ++ y :: right → y ≠ x ∧ y ≠ nil := by
    intro left y right heq
    have hy : y ∈ before ++ after := by
      rw [heq]
      simp
    refine ⟨?_, ?_⟩
    · rintro rfl
      exact (List.nodup_middle.mp hnodup |> List.nodup_cons.mp).1 hy
    · rintro rfl
      exact (List.mem_append.mp hy).elim hbefore hafter
  refine ⟨?_, ?_, ?_, ?_, ?_, ?_⟩
  · exact hnodup.sublist (List.Sublist.append_left (List.sublist_cons_self x after) before)
  · simp only [List.mem_append, not_or]
    exact ⟨hbefore, hafter⟩
  · rw [unlink_head, hprev, hnext, hlinked.head_eq]
    cases before with
    | nil => simp
    | cons first before =>
        rw [if_pos (getD_getLast?_ne_nil hbefore (by simp))]
        rfl
  · rw [unlink_tail, hprev, hnext, hlinked.tail_eq]
    cases after with
    | nil => simp
    | cons first after =>
        rw [if_pos (getD_head?_ne_nil hafter (by simp)), List.getLast?_append_of_ne_nil,
          List.getLast?_append_of_ne_nil, List.getLast?_cons_cons]
        · simp
        · simp
  · intro left y right heq
    obtain ⟨hyx, hynil⟩ := hkept left y right heq
    rw [unlink_next, Function.update_of_ne hyx, patched_apply hynil, hprev, hnext]
    rcases split_cases heq with ⟨mid, rfl, rfl⟩ | ⟨mid, rfl, rfl⟩
    · have hold := hlinked.next_eq left y (mid ++ x :: after) (by simp)
      cases mid with
      | nil => simp
      | cons first mid =>
          have hlast : y ≠ (left ++ y :: first :: mid).getLast?.getD nil := by
            rw [List.getLast?_append_of_ne_nil _ (by simp), List.getLast?_cons_cons,
              List.getLast?_eq_some_getLast (by simp), Option.getD_some]
            intro hsame
            have hin : y ∈ first :: mid := hsame ▸ List.getLast_mem _
            rw [List.append_assoc] at hnodup
            have htail := (List.nodup_append.mp hnodup).2.1
            exact (List.nodup_cons.mp htail).1 (List.mem_append_left _ hin)
          rw [if_neg hlast, hold]
          rfl
    · have hold := hlinked.next_eq (before ++ x :: mid) y right (by simp)
      have hlast : y ≠ before.getLast?.getD nil := by
        intro hsame
        rcases eq_or_ne before [] with rfl | hne
        · exact hynil hsame
        · rw [List.getLast?_eq_some_getLast hne, Option.getD_some] at hsame
          have hin : y ∈ before := hsame ▸ List.getLast_mem _
          exact (List.nodup_append.mp hnodup).2.2 y hin y (by simp) rfl
      rw [if_neg hlast, hold]
  · intro left y right heq
    obtain ⟨hyx, hynil⟩ := hkept left y right heq
    rw [unlink_prev, Function.update_of_ne hyx, patched_apply hynil, hprev, hnext]
    rcases split_cases heq with ⟨mid, rfl, rfl⟩ | ⟨mid, rfl, rfl⟩
    · have hold := hlinked.prev_eq left y (mid ++ x :: after) (by simp)
      have hfirst : y ≠ after.head?.getD nil := by
        intro hsame
        rcases eq_or_ne after [] with rfl | hne
        · exact hynil hsame
        · rw [List.head?_eq_some_head hne, Option.getD_some] at hsame
          have hin : y ∈ after := hsame ▸ List.head_mem _
          exact (List.nodup_append.mp hnodup).2.2 y (by simp) y
            (List.mem_cons_of_mem _ hin) rfl
      rw [if_neg hfirst, hold]
    · have hold := hlinked.prev_eq (before ++ x :: mid) y right (by simp)
      cases mid with
      | nil => simp
      | cons first mid =>
          have hfirst : y ≠ (first :: mid ++ y :: right).head?.getD nil := by
            rintro rfl
            have htail := (List.nodup_cons.mp (List.nodup_append.mp hnodup).2.1).2
            exact (List.nodup_cons.mp htail).1 (by simp)
          rw [if_neg hfirst, hold, List.getLast?_append_of_ne_nil _ (by simp),
            List.getLast?_append_of_ne_nil _ (by simp), List.getLast?_cons_cons]

/-- Links of other elements stay as they are. -/
theorem Linked.unlink_next_of_not_mem (hlinked : Linked nil links (before ++ x :: after))
    (hy : y ∉ before ++ x :: after) (hynil : y ≠ nil) :
    (IntrusiveList.unlink nil links x).next y = links.next y := by
  have hyx : y ≠ x := fun hsame => hy (by simp [hsame])
  have hlast : y ≠ before.getLast?.getD nil := by
    intro hsame
    rcases eq_or_ne before [] with rfl | hne
    · exact hynil hsame
    · rw [List.getLast?_eq_some_getLast hne, Option.getD_some] at hsame
      exact hy (List.mem_append_left _ (hsame ▸ List.getLast_mem _))
  rw [unlink_next, Function.update_of_ne hyx, patched_apply hynil,
    hlinked.prev_eq before x after rfl, if_neg hlast]

theorem Linked.moveToFront (hlinked : Linked nil links (before ++ x :: after)) :
    Linked nil (IntrusiveList.moveToFront nil links x) (x :: (before ++ after)) := by
  have hx : x ≠ nil := fun hsame => hlinked.nil_not_mem (by simp [hsame])
  unfold IntrusiveList.moveToFront
  split
  · rename_i hhead
    cases before with
    | nil => exact hlinked
    | cons first before =>
        exfalso
        have hfirst : first = x := hlinked.head_eq.symm.trans hhead
        exact (List.nodup_cons.mp hlinked.nodup).1 (by simp [hfirst])
  · refine hlinked.unlink.linkFront ?_ hx
    exact (List.nodup_middle.mp hlinked.nodup |> List.nodup_cons.mp).1

theorem Linked.moveToFront_next_of_not_mem (hlinked : Linked nil links (before ++ x :: after))
    (hy : y ∉ before ++ x :: after) (hynil : y ≠ nil) :
    (IntrusiveList.moveToFront nil links x).next y = links.next y := by
  have hyx : y ≠ x := fun hsame => hy (by simp [hsame])
  unfold IntrusiveList.moveToFront
  split
  · rfl
  · rw [linkFront_next, Function.update_of_ne hyx, hlinked.unlink_next_of_not_mem hy hynil]

end AsterVec.IntrusiveList

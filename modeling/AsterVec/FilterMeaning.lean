import AsterVec.MetadataFilter
import Mathlib.Data.ENat.Lattice

/-!
What a filter means, by recursion on its JSON without a depth limit, and when the evaluation
of the parsed filter agrees.
-/

namespace AsterVec.Metadata

open AsterVec.HttpRequests

variable {F : Type}

/-- The operators, the arguments they take and the tests they become. -/
inductive ReadsAs : String → Json F → Kind F → Prop
  | eq (arg : Json F) : ReadsAs "$eq" arg (.eq arg)
  | ne (arg : Json F) : ReadsAs "$ne" arg (.ne arg)
  | gt (arg : Json F) : ReadsAs "$gt" arg (.gt arg)
  | gte (arg : Json F) : ReadsAs "$gte" arg (.gte arg)
  | lt (arg : Json F) : ReadsAs "$lt" arg (.lt arg)
  | lte (arg : Json F) : ReadsAs "$lte" arg (.lte arg)
  | isIn (values : List (Json F)) : ReadsAs "$in" (.array values) (.isIn values)
  | nin (values : List (Json F)) : ReadsAs "$nin" (.array values) (.nin values)
  | containsAny (values : List (Json F)) :
      ReadsAs "$contains_any" (.array values) (.containsAny values)
  | containsAll (values : List (Json F)) :
      ReadsAs "$contains_all" (.array values) (.containsAll values)
  | exists (expected : Bool) : ReadsAs "$exists" (.bool expected) (.exists expected)

theorem parseOperator_iff {op : String} {arg : Json F} {kind : Kind F} :
    parseOperator op arg = .ok kind ↔ ReadsAs op arg kind := by
  constructor
  · intro hparse
    unfold parseOperator at hparse
    split at hparse
    · next h => cases hparse; exact h ▸ .eq arg
    split at hparse
    · next h => cases hparse; exact h ▸ .ne arg
    split at hparse
    · next h => cases hparse; exact h ▸ .gt arg
    split at hparse
    · next h => cases hparse; exact h ▸ .gte arg
    split at hparse
    · next h => cases hparse; exact h ▸ .lt arg
    split at hparse
    · next h => cases hparse; exact h ▸ .lte arg
    split at hparse
    · next h =>
      cases arg with
      | array values =>
          rcases h with rfl | rfl | rfl | rfl <;>
            simp only [String.reduceEq, if_true, if_false] at hparse <;> cases hparse
          · exact .isIn values
          · exact .nin values
          · exact .containsAny values
          · exact .containsAll values
      | _ => cases hparse
    split at hparse
    · next h =>
      cases arg with
      | bool expected => cases hparse; exact h ▸ .exists expected
      | _ => cases hparse
    · cases hparse
  · intro hreads
    cases hreads <;> simp [parseOperator]


/-- Two numbers, or two strings. -/
def Comparable (a b : Json F) : Prop :=
  (isNumber a = true ∧ isNumber b = true) ∨ (isString a = true ∧ isString b = true)

/-- What an operator says of the value at a path. -/
def OperatorHolds (lib : ValueLibrary F) (v : Option (Json F)) (op : String) (arg : Json F) :
    Prop :=
  match op with
  | "$eq" => ∃ x ∈ v, lib.equal x arg = true
  | "$ne" => ∀ x ∈ v, lib.unequal x arg = true
  | "$gt" => ∃ x ∈ v, Comparable x arg ∧ lib.greater x arg = true
  | "$gte" => ∃ x ∈ v, Comparable x arg ∧ lib.greaterEq x arg = true
  | "$lt" => ∃ x ∈ v, Comparable x arg ∧ lib.less x arg = true
  | "$lte" => ∃ x ∈ v, Comparable x arg ∧ lib.lessEq x arg = true
  | "$in" => ∃ x ∈ v, ∃ target ∈ elements arg, lib.equal x target = true
  | "$nin" => ∀ x ∈ v, ∀ target ∈ elements arg, lib.equal x target = false
  | "$exists" => arg = .bool v.isSome
  | "$contains_any" => ∃ x ∈ v, ∃ target ∈ elements arg, ∃ el ∈ elements x,
      lib.equal el target = true
  | "$contains_all" => ∃ x ∈ v, isArray x = true ∧ ∀ target ∈ elements arg,
      ∃ el ∈ elements x, lib.equal el target = true
  | _ => False

theorem compareOrdered_iff {v : Option (Json F)} {rhs : Json F}
    {cmp : Json F → Json F → Bool} :
    compareOrdered v rhs cmp = true ↔ ∃ x ∈ v, Comparable x rhs ∧ cmp x rhs = true := by
  cases v <;> simp [compareOrdered, sameOrderingKind, Comparable]

theorem matches_iff_operatorHolds {lib : ValueLibrary F} {op : String} {arg : Json F}
    {kind : Kind F} (hreads : ReadsAs op arg kind) (v : Option (Json F)) :
    kind.matches lib v = true ↔ OperatorHolds lib v op arg := by
  cases hreads with
  | gt | gte | lt | lte => exact compareOrdered_iff
  | containsAny values =>
      cases v with
      | none => simp [Kind.matches, OperatorHolds]
      | some x => cases x <;> simp [Kind.matches, OperatorHolds, elements, isArray]
  | «exists» expected =>
      simp only [Kind.matches, OperatorHolds, beq_iff_eq, Json.bool.injEq]
      exact eq_comm
  | _ => cases v <;> simp [Kind.matches, OperatorHolds, elements]

/-! ## The meaning of a filter -/

/-- A non-empty object whose names all start with a dollar sign. -/
def IsOperatorObject (val : Json F) : Prop :=
  ∃ members, val = .object members ∧ members ≠ [] ∧ ∀ m ∈ members, isOperatorName m.1 = true

/-- The member of a field: every operator of an operator object, else deep equality. -/
def FieldHolds (lib : ValueLibrary F) (v : Option (Json F)) (val : Json F) : Prop :=
  (∃ members, IsOperatorObject val ∧ val = .object members ∧
    ∀ m ∈ members, OperatorHolds lib v m.1 m.2) ∨
  (¬ IsOperatorObject val ∧ ∃ x ∈ v, lib.equal x val = true)

section

variable (lib : ValueLibrary F) (doc : Json F)

mutual

def Meaning : Json F → Prop
  | .object members => MembersHold members
  | _ => False
termination_by structural filter => filter

def MembersHold : List (String × Json F) → Prop
  | [] => True
  | (key, val) :: rest =>
      (if key = "$and" then AllHold val
        else if key = "$or" then AnyHolds val
        else FieldHolds lib (resolve doc (splitPath key)) val) ∧ MembersHold rest
termination_by structural members => members

def AllHold : Json F → Prop
  | .array filters => EachHolds filters
  | _ => False
termination_by structural filter => filter

def EachHolds : List (Json F) → Prop
  | [] => True
  | filter :: rest => Meaning filter ∧ EachHolds rest
termination_by structural filters => filters

def AnyHolds : Json F → Prop
  | .array filters => SomeHolds filters
  | _ => False
termination_by structural filter => filter

def SomeHolds : List (Json F) → Prop
  | [] => False
  | filter :: rest => Meaning filter ∨ SomeHolds rest
termination_by structural filters => filters

end

/-- Blank text is satisfied by every document. -/
def TextMeaning (text : List UInt8) : Prop :=
  trim text = [] ∨ ∃ filter, lib.parse (trim text) = .ok filter ∧ Meaning lib doc filter

/-! ## The levels of a predicate that an evaluation uses -/

mutual

/-- How far below a predicate the parts lie that make it true; infinite when it is not. -/
noncomputable def levelsUsed : Predicate F → ℕ∞
  | .leaf path kind => if kind.matches lib (resolve doc path) then 0 else ⊤
  | .and children => allUsed children
  | .or children => anyUsed children
termination_by structural p => p

noncomputable def allUsed : List (Predicate F) → ℕ∞
  | [] => 0
  | c :: children => max (levelsUsed c + 1) (allUsed children)
termination_by structural children => children

noncomputable def anyUsed : List (Predicate F) → ℕ∞
  | [] => ⊤
  | c :: children => min (levelsUsed c + 1) (anyUsed children)
termination_by structural children => children

end

end

section

variable {lib : ValueLibrary F} {doc : Json F}

theorem add_one_add_le (used : ℕ∞) (depth : Nat) :
    used + 1 + depth ≤ kMaxPredicateDepth ↔ used + (depth + 1 : Nat) ≤ kMaxPredicateDepth := by
  rw [add_assoc, add_comm (1 : ℕ∞), Nat.cast_add, Nat.cast_one]

theorem max_add_le {a b c d : ℕ∞} : max a b + c ≤ d ↔ a + c ≤ d ∧ b + c ≤ d := by
  rw [← max_add_add_right a b c, max_le_iff]

theorem min_add_le {a b c d : ℕ∞} : min a b + c ≤ d ↔ a + c ≤ d ∨ b + c ≤ d := by
  rw [← min_add_add_right a b c, min_le_iff]

mutual

/-- The evaluation is true when the parts it needs lie within the depth limit. -/
theorem matchesWithDepth_iff : ∀ (p : Predicate F) (depth : Nat),
    matchesWithDepth lib doc p depth = true ↔
      levelsUsed lib doc p + depth ≤ kMaxPredicateDepth
  | .leaf path kind, depth => by
      have hdepth : (depth : ℕ∞) ≤ kMaxPredicateDepth ↔ depth ≤ kMaxPredicateDepth :=
        Nat.cast_le
      by_cases hkind : kind.matches lib (resolve doc path) = true <;>
        simp [matchesWithDepth, levelsUsed, hkind, hdepth]
  | .and children, depth => by
      rw [matchesWithDepth, levelsUsed, ← allMatch_iff children depth]
      simp
  | .or children, depth => by
      rw [matchesWithDepth, levelsUsed, ← anyMatches_iff children depth]
      simp
termination_by structural p => p

theorem allMatch_iff : ∀ (children : List (Predicate F)) (depth : Nat),
    depth ≤ kMaxPredicateDepth ∧ allMatch lib doc children (depth + 1) = true ↔
      allUsed lib doc children + depth ≤ kMaxPredicateDepth
  | [], depth => by
      have hdepth : (depth : ℕ∞) ≤ kMaxPredicateDepth ↔ depth ≤ kMaxPredicateDepth :=
        Nat.cast_le
      simp [allMatch, allUsed, hdepth]
  | c :: children, depth => by
      rw [allUsed, max_add_le, add_one_add_le, ← matchesWithDepth_iff c (depth + 1),
        ← allMatch_iff children depth, allMatch, Bool.and_eq_true]
      exact and_left_comm
termination_by structural children => children

theorem anyMatches_iff : ∀ (children : List (Predicate F)) (depth : Nat),
    depth ≤ kMaxPredicateDepth ∧ anyMatches lib doc children (depth + 1) = true ↔
      anyUsed lib doc children + depth ≤ kMaxPredicateDepth
  | [], depth => by simp [anyMatches, anyUsed]
  | c :: children, depth => by
      have hchild : matchesWithDepth lib doc c (depth + 1) = true →
          depth ≤ kMaxPredicateDepth := by
        intro hmatches
        unfold matchesWithDepth at hmatches
        by_contra hdeep
        rw [if_pos (by omega)] at hmatches
        cases hmatches
      rw [anyUsed, min_add_le, add_one_add_le, ← matchesWithDepth_iff c (depth + 1),
        ← anyMatches_iff children depth, anyMatches, Bool.or_eq_true, and_or_left]
      exact or_congr_left (and_iff_right_of_imp hchild)
termination_by structural children => children

end

/-! ## The parsed filter -/

theorem map_ok {α β : Type} {f : α → β} {result : Except String α} {value : β}
    (hmap : f <$> result = .ok value) : ∃ a, result = .ok a ∧ f a = value := by
  cases result with
  | error what => cases hmap
  | ok a => exact ⟨a, rfl, by cases hmap; rfl⟩

theorem bind_ok {α β : Type} {f : α → Except String β} {result : Except String α} {value : β}
    (hbind : result >>= f = .ok value) : ∃ a, result = .ok a ∧ f a = .ok value := by
  cases result with
  | error what => cases hbind
  | ok a => exact ⟨a, rfl, hbind⟩

theorem allUsed_cons (c : Predicate F) (children : List (Predicate F)) :
    allUsed lib doc (c :: children) ≠ ⊤ ↔
      levelsUsed lib doc c ≠ ⊤ ∧ allUsed lib doc children ≠ ⊤ := by
  simp [allUsed]

theorem anyUsed_cons (c : Predicate F) (children : List (Predicate F)) :
    anyUsed lib doc (c :: children) ≠ ⊤ ↔
      levelsUsed lib doc c ≠ ⊤ ∨ anyUsed lib doc children ≠ ⊤ := by
  simp [anyUsed, imp_iff_not_or]

theorem levelsUsed_conjunction (children : List (Predicate F)) :
    levelsUsed lib doc (conjunction children) ≠ ⊤ ↔ allUsed lib doc children ≠ ⊤ := by
  unfold conjunction
  split
  · simp [allUsed]
  · rfl

theorem allUsed_parseOperators {path : List String} {members : List (String × Json F)}
    {leaves : List (Predicate F)} (hparse : parseOperators path members = .ok leaves) :
    allUsed lib doc leaves ≠ ⊤ ↔
      ∀ m ∈ members, OperatorHolds lib (resolve doc path) m.1 m.2 := by
  induction members generalizing leaves with
  | nil =>
      cases hparse
      simp [allUsed]
  | cons member rest ih =>
      rcases member with ⟨op, arg⟩
      obtain ⟨kind, hkind, hparse⟩ := bind_ok hparse
      obtain ⟨tail, htail, hparse⟩ := bind_ok hparse
      cases hparse
      have hholds := @matches_iff_operatorHolds F lib _ _ _ (parseOperator_iff.1 hkind)
        (resolve doc path)
      rw [List.forall_mem_cons, ← ih htail, ← hholds]
      by_cases hmatches : kind.matches lib (resolve doc path) = true <;>
        simp [allUsed, levelsUsed, hmatches]

/-- The member of a field is read as an operator object or as a value to be equal to. -/
theorem parseField_ok {key : String} {val : Json F} {p : Predicate F}
    (hparse : parseField key val = .ok p) :
    (IsOperatorObject val ∧ parseOperatorObject (splitPath key) val = .ok p) ∨
      (¬ IsOperatorObject val ∧ p = .leaf (splitPath key) (.eq val)) := by
  cases val with
  | object members =>
      simp only [parseField] at hparse
      have hoperators : IsOperatorObject (.object members) ↔
          members ≠ [] ∧ ∀ m ∈ members, isOperatorName m.1 = true := by
        simp [IsOperatorObject]
      rw [hoperators]
      split_ifs at hparse with hmixed hop
      · left
        simp only [hop, Bool.true_and, List.any_eq_true, not_exists, not_and, Bool.not_eq_true',
          Bool.not_eq_false] at hmixed
        refine ⟨⟨?_, fun m hm => hmixed m hm⟩, hparse⟩
        rintro rfl
        cases hop
      · right
        cases hparse
        refine ⟨fun ⟨hne, hall⟩ => hop ?_, rfl⟩
        obtain ⟨m, hm⟩ := List.exists_mem_of_ne_nil _ hne
        exact List.any_eq_true.2 ⟨m, hm, hall m hm⟩
  | _ =>
      right
      cases hparse
      refine ⟨?_, rfl⟩
      rintro ⟨members, hmembers, _⟩
      cases hmembers

theorem parseField_meaning {key : String} {val : Json F} {p : Predicate F}
    (hparse : parseField key val = .ok p) :
    levelsUsed lib doc p ≠ ⊤ ↔ FieldHolds lib (resolve doc (splitPath key)) val := by
  rcases parseField_ok hparse with ⟨hoperators, hparse⟩ | ⟨hvalue, rfl⟩
  · obtain ⟨members, rfl, _⟩ := id hoperators
    obtain ⟨leaves, hleaves, rfl⟩ := map_ok hparse
    rw [levelsUsed_conjunction, allUsed_parseOperators hleaves]
    simp [FieldHolds, hoperators]
  · cases hv : resolve doc (splitPath key) <;>
      simp [FieldHolds, hvalue, levelsUsed, Kind.matches, hv]

mutual

theorem parseObject_meaning : ∀ (obj : Json F) {depth : Nat} {p : Predicate F},
    parseObject obj depth = .ok p → (levelsUsed lib doc p ≠ ⊤ ↔ Meaning lib doc obj)
  | .object members, depth, p, hparse => by
      rw [parseObject] at hparse
      split at hparse
      · cases hparse
      · obtain ⟨children, hchildren, rfl⟩ := map_ok hparse
        rw [levelsUsed_conjunction, parseMembers_meaning members hchildren]
        rfl
  | .null, depth, p, hparse | .bool _, depth, p, hparse | .unsigned _, depth, p, hparse
  | .integer _, depth, p, hparse | .float _, depth, p, hparse | .string _, depth, p, hparse
  | .array _, depth, p, hparse => by
      unfold parseObject at hparse
      split at hparse <;> cases hparse
termination_by structural obj => obj

theorem parseMembers_meaning : ∀ (members : List (String × Json F)) {depth : Nat}
    {children : List (Predicate F)}, parseMembers members depth = .ok children →
      (allUsed lib doc children ≠ ⊤ ↔ MembersHold lib doc members)
  | [], depth, children, hparse => by
      cases hparse
      simp [allUsed, MembersHold]
  | (key, val) :: rest, depth, children, hparse => by
      unfold parseMembers at hparse
      obtain ⟨child, hchild, hparse⟩ := bind_ok hparse
      obtain ⟨tail, htail, hparse⟩ := bind_ok hparse
      cases hparse
      rw [allUsed_cons, parseMembers_meaning rest htail, MembersHold]
      refine and_congr_left fun _ => ?_
      by_cases hand : key = "$and"
      · rw [if_pos (.inl hand), if_pos hand] at hchild
        obtain ⟨filters, hfilters, rfl⟩ := map_ok hchild
        rw [if_pos hand]
        exact (parseLogicalArray_meaning val hfilters).1
      · by_cases hor : key = "$or"
        · rw [if_pos (.inr hor), if_neg hand] at hchild
          obtain ⟨filters, hfilters, rfl⟩ := map_ok hchild
          rw [if_neg hand, if_pos hor]
          exact (parseLogicalArray_meaning val hfilters).2
        · rw [if_neg (by simp [hand, hor])] at hchild
          rw [if_neg hand, if_neg hor]
          exact parseField_meaning hchild
termination_by structural members => members

theorem parseLogicalArray_meaning : ∀ (arr : Json F) {depth : Nat}
    {children : List (Predicate F)}, parseLogicalArray arr depth = .ok children →
      (allUsed lib doc children ≠ ⊤ ↔ AllHold lib doc arr) ∧
        (anyUsed lib doc children ≠ ⊤ ↔ AnyHolds lib doc arr)
  | .array filters, depth, children, hparse => by
      unfold parseLogicalArray at hparse
      split at hparse
      · cases hparse
      · exact parseElements_meaning filters hparse
  | .null, depth, p, hparse | .bool _, depth, p, hparse | .unsigned _, depth, p, hparse
  | .integer _, depth, p, hparse | .float _, depth, p, hparse | .string _, depth, p, hparse
  | .object _, depth, p, hparse => by
      unfold parseLogicalArray at hparse
      split at hparse <;> cases hparse
termination_by structural arr => arr

theorem parseElements_meaning : ∀ (filters : List (Json F)) {depth : Nat}
    {children : List (Predicate F)}, parseElements filters depth = .ok children →
      (allUsed lib doc children ≠ ⊤ ↔ EachHolds lib doc filters) ∧
        (anyUsed lib doc children ≠ ⊤ ↔ SomeHolds lib doc filters)
  | [], depth, children, hparse => by
      cases hparse
      simp [allUsed, anyUsed, EachHolds, SomeHolds]
  | filter :: rest, depth, children, hparse => by
      unfold parseElements at hparse
      obtain ⟨child, hchild, hparse⟩ := bind_ok hparse
      obtain ⟨tail, htail, hparse⟩ := bind_ok hparse
      cases hparse
      split at hchild
      · have hfilter := parseObject_meaning filter hchild
        have hrest := parseElements_meaning rest htail
        rw [allUsed_cons, anyUsed_cons, EachHolds, SomeHolds, hfilter, hrest.1, hrest.2]
        exact ⟨Iff.rfl, Iff.rfl⟩
      · cases hchild
termination_by structural filters => filters

end

theorem matches_iff (p : Predicate F) :
    p.matches lib doc = true ↔ levelsUsed lib doc p ≤ kMaxPredicateDepth := by
  simpa [Predicate.matches] using matchesWithDepth_iff p 0

theorem parsePredicate_meaning {text : List UInt8} {p : Predicate F}
    (hparse : parsePredicate lib text = .ok p) :
    levelsUsed lib doc p ≠ ⊤ ↔ TextMeaning lib doc text := by
  simp only [parsePredicate] at hparse
  split_ifs at hparse with hshort hlong
  · cases hparse
    have htext : TextMeaning lib doc text := by
      rcases hshort with hblank | hbraces
      · exact .inl hblank
      · exact .inr ⟨.object [], hbraces ▸ lib.parse_braces, trivial⟩
    simp [levelsUsed, allUsed, htext]
  · have hne : trim text ≠ [] := fun hblank => hshort (.inl hblank)
    cases hjson : lib.parse (trim text) with
    | error what =>
        rw [hjson] at hparse
        cases hparse
    | ok filter =>
        rw [hjson] at hparse
        rw [parseObject_meaning filter hparse]
        simp [TextMeaning, hne, hjson]

/-- An accepted filter means on a document what its JSON says exactly when the document, if it
satisfies the filter, does so by parts of the tree that lie within the depth limit. -/
theorem matches_iff_meaning_iff {text : List UInt8} {p : Predicate F}
    (hparse : parsePredicate lib text = .ok p) :
    (p.matches lib doc = true ↔ TextMeaning lib doc text) ↔
      (TextMeaning lib doc text → levelsUsed lib doc p ≤ kMaxPredicateDepth) := by
  rw [matches_iff, ← parsePredicate_meaning hparse]
  have hfinite : levelsUsed lib doc p ≤ kMaxPredicateDepth → levelsUsed lib doc p ≠ ⊤ :=
    fun hle htop => by simp [htop] at hle
  exact ⟨fun hiff hne => hiff.2 hne, fun hwithin => ⟨hfinite, hwithin⟩⟩

end

/-! ## A filter at the parser's limit -/

/-- A conjunction of two fields inside `n` conjunctions of an `$and` and a field. -/
def nestedFilter : Nat → Json Unit
  | 0 => .object [("a", .unsigned 1), ("b", .unsigned 2)]
  | n + 1 => .object [("$and", .array [nestedFilter n]), ("a", .unsigned 1)]

def nestedTree : Nat → Predicate Unit
  | 0 => .and [.leaf ["a"] (.eq (.unsigned 1)), .leaf ["b"] (.eq (.unsigned 2))]
  | n + 1 => .and [.and [nestedTree n], .leaf ["a"] (.eq (.unsigned 1))]

/-- The text of a nested filter, between its outer braces: `"a":1,"b":2` inside, and around
it `"$and":[` with a brace, and a brace with `],"a":1`. -/
def nestedMembers : Nat → List UInt8
  | 0 => [34, 97, 34, 58, 49, 44, 34, 98, 34, 58, 50]
  | n + 1 => [34, 36, 97, 110, 100, 34, 58, 91, 123] ++ nestedMembers n ++
      [125, 93, 44, 34, 97, 34, 58, 49]

def nestedText (n : Nat) : List UInt8 :=
  123 :: nestedMembers n ++ [125]

/-- A library that reads braces and the nested filters, and compares unsigned numbers. -/
def nestedLibrary (n : Nat) : ValueLibrary Unit where
  parse text :=
    if text = [123, 125] then .ok (.object [])
    else if text = nestedText n then .ok (nestedFilter n)
    else .error "unexpected text"
  dump _ := ""
  equal
    | .unsigned x, .unsigned y => x = y
    | _, _ => false
  unequal _ _ := false
  less _ _ := false
  lessEq _ _ := false
  greater _ _ := false
  greaterEq _ _ := false
  parse_braces := by rw [if_pos rfl]

/-- The document that has both fields. -/
def nestedDoc : Json Unit := .object [("a", .unsigned 1), ("b", .unsigned 2)]

theorem parseObject_nestedFilter (n : Nat) {depth : Nat} (hdepth : depth + 2 * n ≤ 32) :
    parseObject (nestedFilter n) depth = .ok (nestedTree n) := by
  induction n generalizing depth with
  | zero =>
      have hwithin : ¬ kMaxPredicateDepth < depth := by unfold kMaxPredicateDepth; omega
      rw [nestedFilter, parseObject, if_neg hwithin]
      rfl
  | succ n ih =>
      have hwithin : ¬ kMaxPredicateDepth < depth := by unfold kMaxPredicateDepth; omega
      have harray : ¬ kMaxPredicateDepth < depth + 1 := by unfold kMaxPredicateDepth; omega
      have hobject : (nestedFilter n).isObject = true := by cases n <;> rfl
      have helement : parseObject (nestedFilter n) (depth + 1 + 1) = .ok (nestedTree n) :=
        ih (by omega)
      rw [nestedFilter, parseObject, if_neg hwithin]
      simp only [parseMembers, parseLogicalArray, if_neg harray, parseElements, hobject, helement]
      rfl

theorem levelsUsed_nestedTree (n k : Nat) :
    levelsUsed (nestedLibrary k) nestedDoc (nestedTree n) = (2 * n + 1 : Nat) := by
  induction n with
  | zero => rfl
  | succ n ih =>
      have hleaf : levelsUsed (nestedLibrary k) nestedDoc
          (.leaf ["a"] (.eq (.unsigned 1))) = 0 := rfl
      have hcast : ((2 * n + 1 : Nat) : ℕ∞) + 1 + 1 = (2 * (n + 1) + 1 : Nat) := by
        rw [show 2 * (n + 1) + 1 = 2 * n + 1 + 1 + 1 by omega]
        push_cast
        rfl
      have hone : (1 : ℕ∞) ≤ (2 * (n + 1) + 1 : Nat) := by
        exact_mod_cast (by omega : 1 ≤ 2 * (n + 1) + 1)
      change max (max (levelsUsed _ _ (nestedTree n) + 1) 0 + 1)
        (max (levelsUsed _ _ (.leaf ["a"] (.eq (.unsigned 1))) + 1) 0) = _
      rw [hleaf, ih, max_eq_left (zero_le), hcast, zero_add, max_eq_left (zero_le),
        max_eq_left hone]

theorem length_nestedMembers (n : Nat) : (nestedMembers n).length = 17 * n + 11 := by
  induction n with
  | zero => rfl
  | succ n ih =>
      simp only [nestedMembers, List.length_append, List.length_cons, List.length_nil, ih]
      omega

theorem trim_nestedText (n : Nat) : trim (nestedText n) = nestedText n := by
  have hbrace : isSpaceByte 123 = false ∧ isSpaceByte 125 = false := by decide
  simp [trim, nestedText, hbrace]

/-- The nested filters are accepted while their objects lie within the nesting limit. -/
theorem parsePredicate_nestedText {n : Nat} (hn : n ≤ 16) :
    parsePredicate (nestedLibrary n) (nestedText n) = .ok (nestedTree n) := by
  have hlength : (nestedText n).length = 17 * n + 13 := by
    simp [nestedText, length_nestedMembers]
  have hblank : nestedText n ≠ [] := List.cons_ne_nil _ _
  have hbraces : nestedText n ≠ [123, 125] := by
    intro heq
    rw [heq] at hlength
    simp at hlength
  have hshort : ¬ kMaxFilterJsonBytes < (nestedText n).length := by
    rw [hlength, kMaxFilterJsonBytes]
    omega
  simp only [parsePredicate, trim_nestedText, hblank, hbraces, or_self, if_false, hshort,
    nestedLibrary, if_true]
  exact parseObject_nestedFilter n (by omega)

/-- Sixteen conjunctions, each an object of its own, inside each other: the innermost fields
lie one level too deep to be looked at. -/
theorem nested_misses :
    ∃ p, parsePredicate (nestedLibrary 16) (nestedText 16) = .ok p ∧
      TextMeaning (nestedLibrary 16) nestedDoc (nestedText 16) ∧
        p.matches (nestedLibrary 16) nestedDoc = false := by
  have hparse := parsePredicate_nestedText (n := 16) le_rfl
  have hused := levelsUsed_nestedTree 16 16
  refine ⟨nestedTree 16, hparse, ?_, ?_⟩
  · rw [← parsePredicate_meaning hparse, hused]
    exact ENat.natCast_ne_top _
  · rw [← Bool.not_eq_true, matches_iff, hused]
    decide

/-- One conjunction inside another agrees. -/
theorem nested_agrees :
    (nestedTree 1).matches (nestedLibrary 1) nestedDoc = true ↔
      TextMeaning (nestedLibrary 1) nestedDoc (nestedText 1) := by
  refine (matches_iff_meaning_iff (parsePredicate_nestedText (by omega))).2 fun _ => ?_
  rw [levelsUsed_nestedTree]
  decide

end AsterVec.Metadata

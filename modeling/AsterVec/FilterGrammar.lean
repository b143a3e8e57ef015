import AsterVec.FilterMeaning

/-!
The grammar of filter texts, and what the parser accepts.  Names in field position are the
grammar's parameter: the parser takes any, the grammar those without a dollar sign.
-/

namespace AsterVec.Metadata

open AsterVec.HttpRequests

variable {F : Type}

/-- An operator with an argument of the kind it requires. -/
def KnownOperator (op : String) (arg : Json F) : Prop :=
  op ∈ ["$eq", "$ne", "$gt", "$gte", "$lt", "$lte"] ∨
    (op ∈ ["$in", "$nin", "$contains_any", "$contains_all"] ∧ ∃ values, arg = .array values) ∨
    (op = "$exists" ∧ ∃ expected, arg = .bool expected)

/-- The member of a field: known operators only, or no name with a dollar sign. -/
def FieldValue (val : Json F) : Prop :=
  ∀ members, val = .object members →
    (∀ m ∈ members, isOperatorName m.1 = true ∧ KnownOperator m.1 m.2) ∨
      ∀ m ∈ members, isOperatorName m.1 = false

section

variable (fieldName : String → Prop)

mutual

/-- An object at a nesting level, its members named by fields or by `$and` and `$or`. -/
def FilterObject : Json F → Nat → Prop
  | .object members, depth => depth ≤ kMaxPredicateDepth ∧ FilterMembers members depth
  | _, _ => False
termination_by structural filter => filter

def FilterMembers : List (String × Json F) → Nat → Prop
  | [], _ => True
  | (key, val) :: rest, depth =>
      (if key = "$and" ∨ key = "$or" then FilterArray val (depth + 1)
        else fieldName key ∧ FieldValue val) ∧ FilterMembers rest depth
termination_by structural members => members

def FilterArray : Json F → Nat → Prop
  | .array filters, depth => depth ≤ kMaxPredicateDepth ∧ FilterElements filters depth
  | _, _ => False
termination_by structural arr => arr

def FilterElements : List (Json F) → Nat → Prop
  | [], _ => True
  | filter :: rest, depth => FilterObject filter (depth + 1) ∧ FilterElements rest depth
termination_by structural filters => filters

end

/-- Blank text, or the text of a filter object. -/
def InGrammar (lib : ValueLibrary F) (text : List UInt8) : Prop :=
  trim text = [] ∨ ∃ filter, lib.parse (trim text) = .ok filter ∧ FilterObject fieldName filter 0

end

/-- A name without a dollar sign in front. -/
def PlainName (name : String) : Prop :=
  isOperatorName name = false

def AnyName (_ : String) : Prop := True

/-! ## Names in field position -/

mutual

/-- Every name in field position other than `$and` and `$or` is plain. -/
def PlainObject : Json F → Prop
  | .object members => PlainMembers members
  | _ => True
termination_by structural filter => filter

def PlainMembers : List (String × Json F) → Prop
  | [] => True
  | (key, val) :: rest =>
      (if key = "$and" ∨ key = "$or" then PlainArray val else PlainName key) ∧
        PlainMembers rest
termination_by structural members => members

def PlainArray : Json F → Prop
  | .array filters => PlainElements filters
  | _ => True
termination_by structural arr => arr

def PlainElements : List (Json F) → Prop
  | [] => True
  | filter :: rest => PlainObject filter ∧ PlainElements rest
termination_by structural filters => filters

end

mutual

theorem filterObject_plain_iff : ∀ (filter : Json F) (depth : Nat),
    FilterObject PlainName filter depth ↔ FilterObject AnyName filter depth ∧ PlainObject filter
  | .object members, depth => by
      rw [FilterObject, FilterObject, PlainObject, filterMembers_plain_iff members depth,
        and_assoc]
  | .null, depth | .bool _, depth | .unsigned _, depth | .integer _, depth | .float _, depth
  | .string _, depth | .array _, depth => by simp [FilterObject]
termination_by structural filter => filter

theorem filterMembers_plain_iff : ∀ (members : List (String × Json F)) (depth : Nat),
    FilterMembers PlainName members depth ↔
      FilterMembers AnyName members depth ∧ PlainMembers members
  | [], depth => by simp [FilterMembers, PlainMembers]
  | (key, val) :: rest, depth => by
      rw [FilterMembers, FilterMembers, PlainMembers, filterMembers_plain_iff rest depth]
      split
      · rw [filterArray_plain_iff val (depth + 1)]
        exact and_and_and_comm
      · simp only [AnyName, true_and]
        rw [and_comm (a := PlainName key)]
        exact and_and_and_comm
termination_by structural members => members

theorem filterArray_plain_iff : ∀ (arr : Json F) (depth : Nat),
    FilterArray PlainName arr depth ↔ FilterArray AnyName arr depth ∧ PlainArray arr
  | .array filters, depth => by
      rw [FilterArray, FilterArray, PlainArray, filterElements_plain_iff filters depth,
        and_assoc]
  | .null, depth | .bool _, depth | .unsigned _, depth | .integer _, depth | .float _, depth
  | .string _, depth | .object _, depth => by simp [FilterArray]
termination_by structural arr => arr

theorem filterElements_plain_iff : ∀ (filters : List (Json F)) (depth : Nat),
    FilterElements PlainName filters depth ↔
      FilterElements AnyName filters depth ∧ PlainElements filters
  | [], depth => by simp [FilterElements, PlainElements]
  | filter :: rest, depth => by
      rw [FilterElements, FilterElements, PlainElements, filterObject_plain_iff filter (depth + 1),
        filterElements_plain_iff rest depth]
      exact and_and_and_comm
termination_by structural filters => filters

end

/-! ## What the parser accepts -/

theorem map_isOk {α β : Type} (f : α → β) (result : Except String α) :
    (∃ value, f <$> result = .ok value) ↔ ∃ a, result = .ok a := by
  constructor
  · rintro ⟨value, hmap⟩
    obtain ⟨a, ha, _⟩ := map_ok hmap
    exact ⟨a, ha⟩
  · rintro ⟨a, rfl⟩
    exact ⟨f a, rfl⟩

/-- A list is read when its head and its tail are. -/
theorem cons_isOk {α β : Type} (f : α → List β → List β) (head : Except String α)
    (tail : Except String (List β)) :
    (∃ value, (do let a ← head; let rest ← tail; Except.ok (f a rest)) = .ok value) ↔
      (∃ a, head = .ok a) ∧ ∃ rest, tail = .ok rest := by
  constructor
  · rintro ⟨value, hbind⟩
    obtain ⟨a, ha, hbind⟩ := bind_ok hbind
    obtain ⟨rest, hrest, _⟩ := bind_ok hbind
    exact ⟨⟨a, ha⟩, rest, hrest⟩
  · rintro ⟨⟨a, rfl⟩, rest, rfl⟩
    exact ⟨f a rest, rfl⟩

theorem parseOperator_isOk (op : String) (arg : Json F) :
    (∃ kind, parseOperator op arg = .ok kind) ↔ KnownOperator op arg := by
  simp only [parseOperator_iff]
  constructor
  · rintro ⟨kind, hreads⟩
    cases hreads <;> simp [KnownOperator]
  · rintro (hop | ⟨hop, values, rfl⟩ | ⟨rfl, expected, rfl⟩)
    · simp only [List.mem_cons, List.not_mem_nil, or_false] at hop
      rcases hop with rfl | rfl | rfl | rfl | rfl | rfl
      · exact ⟨_, .eq arg⟩
      · exact ⟨_, .ne arg⟩
      · exact ⟨_, .gt arg⟩
      · exact ⟨_, .gte arg⟩
      · exact ⟨_, .lt arg⟩
      · exact ⟨_, .lte arg⟩
    · simp only [List.mem_cons, List.not_mem_nil, or_false] at hop
      rcases hop with rfl | rfl | rfl | rfl
      · exact ⟨_, .isIn values⟩
      · exact ⟨_, .nin values⟩
      · exact ⟨_, .containsAny values⟩
      · exact ⟨_, .containsAll values⟩
    · exact ⟨_, .exists expected⟩

theorem parseOperators_isOk (path : List String) (members : List (String × Json F)) :
    (∃ leaves, parseOperators path members = .ok leaves) ↔
      ∀ m ∈ members, KnownOperator m.1 m.2 := by
  induction members with
  | nil => exact iff_of_true ⟨[], rfl⟩ (by simp)
  | cons member rest ih =>
      rcases member with ⟨op, arg⟩
      rw [List.forall_mem_cons, ← ih, ← parseOperator_isOk]
      exact cons_isOk (fun kind leaves => Predicate.leaf path kind :: leaves) _ _

/-- A parser behind the nesting limit. -/
theorem guarded_isOk {α : Type} (depth : Nat) (what : String) (result : Except String α) :
    (∃ a, (if kMaxPredicateDepth < depth then .error what else result) = .ok a) ↔
      depth ≤ kMaxPredicateDepth ∧ ∃ a, result = .ok a := by
  split
  · next hdeep => simp [Nat.not_le.2 hdeep]
  · next hdepth => simp [Nat.not_lt.1 hdepth]

theorem parseField_isOk (key : String) (val : Json F) :
    (∃ p, parseField key val = .ok p) ↔ FieldValue val := by
  cases val with
  | object members =>
      have hvalue : FieldValue (.object members) ↔
          (∀ m ∈ members, isOperatorName m.1 = true ∧ KnownOperator m.1 m.2) ∨
            ∀ m ∈ members, isOperatorName m.1 = false := by
        simp [FieldValue]
      rw [hvalue]
      simp only [parseField]
      split_ifs with hmixed hop
      · obtain ⟨hop, hplain⟩ := Bool.and_eq_true_iff.1 hmixed
        obtain ⟨m, hm, hmop⟩ := List.any_eq_true.1 hop
        obtain ⟨m', hm', hmplain⟩ := List.any_eq_true.1 hplain
        refine iff_of_false (by simp) ?_
        rintro (hall | hnone)
        · simp [hall m' hm'] at hmplain
        · simp [hnone m hm] at hmop
      · have hall : ∀ m ∈ members, isOperatorName m.1 = true := by
          simpa [hop] using hmixed
        obtain ⟨m, hm, hmop⟩ := List.any_eq_true.1 hop
        have hsome : ¬ ∀ m ∈ members, isOperatorName m.1 = false := fun hnone => by
          simp [hnone m hm] at hmop
        rw [parseOperatorObject, map_isOk, parseOperators_isOk, or_iff_left hsome]
        exact forall₂_congr fun m hm => (and_iff_right (hall m hm)).symm
      · have hnone : ∀ m ∈ members, isOperatorName m.1 = false := by
          simpa using hop
        exact iff_of_true ⟨_, rfl⟩ (.inr hnone)
  | _ => exact iff_of_true ⟨_, rfl⟩ fun members hmembers => by cases hmembers

mutual

theorem parseObject_isOk : ∀ (obj : Json F) (depth : Nat),
    (∃ p, parseObject obj depth = .ok p) ↔ FilterObject AnyName obj depth
  | .object members, depth => by
      rw [parseObject, FilterObject, ← parseMembers_isOk members depth, guarded_isOk, map_isOk]
  | .null, depth | .bool _, depth | .unsigned _, depth | .integer _, depth | .float _, depth
  | .string _, depth | .array _, depth => by
      unfold parseObject
      split <;> simp [FilterObject]
termination_by structural obj => obj

theorem parseMembers_isOk : ∀ (members : List (String × Json F)) (depth : Nat),
    (∃ children, parseMembers members depth = .ok children) ↔
      FilterMembers AnyName members depth
  | [], depth => iff_of_true ⟨[], rfl⟩ trivial
  | (key, val) :: rest, depth => by
      rw [FilterMembers, ← parseMembers_isOk rest depth, parseMembers, cons_isOk List.cons]
      refine and_congr_left fun _ => ?_
      split
      · rw [map_isOk, parseLogicalArray_isOk val (depth + 1)]
      · rw [parseField_isOk]
        simp [AnyName]
termination_by structural members => members

theorem parseLogicalArray_isOk : ∀ (arr : Json F) (depth : Nat),
    (∃ children, parseLogicalArray arr depth = .ok children) ↔ FilterArray AnyName arr depth
  | .array filters, depth => by
      rw [parseLogicalArray, FilterArray, ← parseElements_isOk filters depth, guarded_isOk]
  | .null, depth | .bool _, depth | .unsigned _, depth | .integer _, depth | .float _, depth
  | .string _, depth | .object _, depth => by
      unfold parseLogicalArray
      split <;> simp [FilterArray]
termination_by structural arr => arr

theorem parseElements_isOk : ∀ (filters : List (Json F)) (depth : Nat),
    (∃ children, parseElements filters depth = .ok children) ↔
      FilterElements AnyName filters depth
  | [], depth => iff_of_true ⟨[], rfl⟩ trivial
  | filter :: rest, depth => by
      rw [FilterElements, ← parseElements_isOk rest depth, ← parseObject_isOk filter (depth + 1),
        parseElements, cons_isOk List.cons]
      refine and_congr_left fun _ => ?_
      cases filter with
      | object members => exact Iff.rfl
      | _ =>
          refine iff_of_false (by simp [Json.isObject]) ?_
          rw [parseObject_isOk]
          simp [FilterObject]
termination_by structural filters => filters

end

theorem length_trim_le (text : List UInt8) : (trim text).length ≤ text.length := by
  rw [trim, List.length_reverse]
  calc
    _ ≤ (text.dropWhile isSpaceByte).reverse.length := (List.dropWhile_sublist _).length_le
    _ = (text.dropWhile isSpaceByte).length := List.length_reverse
    _ ≤ text.length := (List.dropWhile_sublist _).length_le

/-- The parser takes the grammar with any name in field position. -/
theorem parsePredicate_isOk (lib : ValueLibrary F) {text : List UInt8}
    (hlength : text.length ≤ kMaxFilterJsonBytes) :
    (∃ p, parsePredicate lib text = .ok p) ↔ InGrammar AnyName lib text := by
  have hshort : ¬ kMaxFilterJsonBytes < (trim text).length :=
    Nat.not_lt.2 ((length_trim_le text).trans hlength)
  simp only [parsePredicate, hshort, if_false]
  split
  · next hempty =>
    refine iff_of_true ⟨_, rfl⟩ ?_
    rcases hempty with hblank | hbraces
    · exact .inl hblank
    · exact .inr ⟨.object [], hbraces ▸ lib.parse_braces, Nat.zero_le _, trivial⟩
  · next hempty =>
    have hne : trim text ≠ [] := fun hblank => hempty (.inl hblank)
    cases hjson : lib.parse (trim text) with
    | error what => simp [InGrammar, hne, hjson]
    | ok filter => simp [InGrammar, hne, hjson, parseObject_isOk]

/-- The parser accepts exactly the grammar, on a text, when every name in field position of
the filter it reads there is plain, or `$and` or `$or`. -/
theorem parsePredicate_accepts_iff (lib : ValueLibrary F) {text : List UInt8}
    (hlength : text.length ≤ kMaxFilterJsonBytes) :
    ((∃ p, parsePredicate lib text = .ok p) ↔ InGrammar PlainName lib text) ↔
      ∀ filter, lib.parse (trim text) = .ok filter → FilterObject AnyName filter 0 →
        trim text ≠ [] → PlainObject filter := by
  rw [parsePredicate_isOk lib hlength]
  constructor
  · intro hiff filter hjson hfilter hne
    rcases hiff.1 (.inr ⟨filter, hjson, hfilter⟩) with hblank | ⟨filter', hjson', hplain⟩
    · exact absurd hblank hne
    · rw [hjson] at hjson'
      cases hjson'
      exact ((filterObject_plain_iff filter 0).1 hplain).2
  · intro hplain
    constructor
    · rintro (hblank | ⟨filter, hjson, hfilter⟩)
      · exact .inl hblank
      · by_cases hblank : trim text = []
        · exact .inl hblank
        · exact .inr ⟨filter, hjson, (filterObject_plain_iff filter 0).2
            ⟨hfilter, hplain filter hjson hfilter hblank⟩⟩
    · rintro (hblank | ⟨filter, hjson, hfilter⟩)
      · exact .inl hblank
      · exact .inr ⟨filter, hjson, ((filterObject_plain_iff filter 0).1 hfilter).1⟩

/-- A library that reads braces and one other text, whose value is given. -/
def oneTextLibrary (text : List UInt8) (filter : Json Unit) : ValueLibrary Unit where
  parse given :=
    if given = [123, 125] then .ok (.object [])
    else if given = text then .ok filter
    else .error "unexpected text"
  dump _ := ""
  equal _ _ := false
  unequal _ _ := true
  less _ _ := false
  lessEq _ _ := false
  greater _ _ := false
  greaterEq _ _ := false
  parse_braces := by rw [if_pos rfl]

/-- The bytes of an object with a member `$not` that is 1. -/
def strayText : List UInt8 :=
  [123, 34, 36, 110, 111, 116, 34, 58, 49, 125]

/-- The bytes of an object with a member `x` that is 1. -/
def plainText : List UInt8 :=
  [123, 34, 120, 34, 58, 49, 125]

/-- An operator the parser does not know is a field name to it. -/
theorem stray_accepted :
    ∃ p, parsePredicate (oneTextLibrary strayText (.object [("$not", .unsigned 1)])) strayText =
      .ok p ∧
      ¬ InGrammar PlainName (oneTextLibrary strayText (.object [("$not", .unsigned 1)]))
        strayText := by
  have hlibrary : (oneTextLibrary strayText (.object [("$not", .unsigned 1)])).parse
      (trim strayText) = .ok (.object [("$not", .unsigned 1)]) := rfl
  refine ⟨.leaf ["$not"] (.eq (.unsigned 1)), rfl, ?_⟩
  rintro (hblank | ⟨filter, hjson, hfilter⟩)
  · cases hblank
  · rw [hlibrary] at hjson
    cases hjson
    have hname : PlainName "$not" := hfilter.2.1.1
    cases hname

theorem plain_accepted :
    (∃ p, parsePredicate (oneTextLibrary plainText (.object [("x", .unsigned 1)])) plainText =
      .ok p) ↔
      InGrammar PlainName (oneTextLibrary plainText (.object [("x", .unsigned 1)])) plainText := by
  refine (parsePredicate_accepts_iff _ (by decide)).2 ?_
  rintro filter hjson - -
  cases hjson
  exact ⟨rfl, trivial⟩

end AsterVec.Metadata

import Mathlib
import AsterVec.HttpRequests

/-!
Metadata filters: the parser of a filter text, and the evaluation of the parsed filter on a
document.  Objects list their members in the order of the library's iterator.
-/

namespace AsterVec.Metadata

open AsterVec.HttpRequests

variable {F : Type}

/-- The JSON library with its comparisons of values. -/
structure ValueLibrary (F : Type) extends JsonLibrary F where
  equal : Json F → Json F → Bool
  unequal : Json F → Json F → Bool
  less : Json F → Json F → Bool
  lessEq : Json F → Json F → Bool
  greater : Json F → Json F → Bool
  greaterEq : Json F → Json F → Bool
  parse_braces : parse [123, 125] = .ok (.object [])

def kMaxFilterJsonBytes : Nat := 8 * 1024

def kMaxPredicateDepth : Nat := 32

/-- The value at a path of member names, when every name but the last leads to an object. -/
def resolve : Json F → List String → Option (Json F)
  | doc, [] => some doc
  | doc, seg :: path => (doc.find? seg).bind fun value => resolve value path

def isNumber : Json F → Bool
  | .unsigned _ | .integer _ | .float _ => true
  | _ => false

def isString : Json F → Bool
  | .string _ => true
  | _ => false

def sameOrderingKind (a b : Json F) : Bool :=
  (isNumber a && isNumber b) || (isString a && isString b)

def compareOrdered (v : Option (Json F)) (rhs : Json F) (cmp : Json F → Json F → Bool) : Bool :=
  match v with
  | none => false
  | some value => sameOrderingKind value rhs && cmp value rhs

def splitPath (key : String) : List String :=
  (key.toList.splitOn '.').map String.ofList

/-- The test of a leaf, with its argument. -/
inductive Kind (F : Type) where
  | eq (value : Json F)
  | ne (value : Json F)
  | gt (value : Json F)
  | gte (value : Json F)
  | lt (value : Json F)
  | lte (value : Json F)
  | isIn (values : List (Json F))
  | nin (values : List (Json F))
  | exists (expected : Bool)
  | containsAny (values : List (Json F))
  | containsAll (values : List (Json F))

inductive Predicate (F : Type) where
  | leaf (path : List String) (kind : Kind F)
  | and (children : List (Predicate F))
  | or (children : List (Predicate F))

/-! ## The parser -/

def depthLimitExceeded : String :=
  "filter predicate nesting exceeds " ++ toString kMaxPredicateDepth ++ " levels"

/-- One operator of an operator object. -/
def parseOperator (op : String) (arg : Json F) : Except String (Kind F) :=
  if op = "$eq" then .ok (.eq arg)
  else if op = "$ne" then .ok (.ne arg)
  else if op = "$gt" then .ok (.gt arg)
  else if op = "$gte" then .ok (.gte arg)
  else if op = "$lt" then .ok (.lt arg)
  else if op = "$lte" then .ok (.lte arg)
  else if op = "$in" ∨ op = "$nin" ∨ op = "$contains_any" ∨ op = "$contains_all" then
    match arg with
    | .array values =>
        if op = "$in" then .ok (.isIn values)
        else if op = "$nin" then .ok (.nin values)
        else if op = "$contains_any" then .ok (.containsAny values)
        else .ok (.containsAll values)
    | _ => .error ("operator " ++ op ++ " requires an array")
  else if op = "$exists" then
    match arg with
    | .bool expected => .ok (.exists expected)
    | _ => .error "$exists requires a boolean"
  else .error ("unknown operator: " ++ op)

def parseOperators (path : List String) : List (String × Json F) →
    Except String (List (Predicate F))
  | [] => .ok []
  | (op, arg) :: rest => do
      let kind ← parseOperator op arg
      let leaves ← parseOperators path rest
      .ok (.leaf path kind :: leaves)

/-- A single conjunct stands for itself. -/
def conjunction : List (Predicate F) → Predicate F
  | [only] => only
  | children => .and children

def parseOperatorObject (path : List String) (obj : Json F) : Except String (Predicate F) :=
  match obj with
  | .object members => conjunction <$> parseOperators path members
  | _ => .error "expected operator object"

/-- A name that starts with a dollar sign. -/
def isOperatorName (name : String) : Bool :=
  name.toList.head? = some '$'

/-- The member of a field: an operator object, or a value to be equal to. -/
def parseField (key : String) (val : Json F) : Except String (Predicate F) :=
  let path := splitPath key
  let members := match val with
    | .object members => members
    | _ => []
  let hasOp := members.any fun m => isOperatorName m.1
  let hasNonOp := members.any fun m => !isOperatorName m.1
  if hasOp && hasNonOp then
    .error ("operator object for field '" ++ key ++ "' must contain only $-prefixed keys")
  else if hasOp then parseOperatorObject path val
  else .ok (.leaf path (.eq val))

mutual

def parseObject : Json F → Nat → Except String (Predicate F)
  | obj, depth =>
      if kMaxPredicateDepth < depth then .error depthLimitExceeded
      else
        match obj with
        | .object members => conjunction <$> parseMembers members depth
        | _ => .error "filter must be an object"
termination_by structural obj => obj

def parseMembers : List (String × Json F) → Nat → Except String (List (Predicate F))
  | [], _ => .ok []
  | (key, val) :: rest, depth => do
      let child ← (
        if key = "$and" ∨ key = "$or" then
          (if key = "$and" then Predicate.and else Predicate.or) <$>
            parseLogicalArray val (depth + 1)
        else parseField key val : Except String (Predicate F))
      let conjuncts ← parseMembers rest depth
      .ok (child :: conjuncts)
termination_by structural members => members

/-- The elements of an `$and` or an `$or`. -/
def parseLogicalArray : Json F → Nat → Except String (List (Predicate F))
  | arr, depth =>
      if kMaxPredicateDepth < depth then .error depthLimitExceeded
      else
        match arr with
        | .array elements => parseElements elements depth
        | _ => .error "$and/$or requires an array"
termination_by structural arr => arr

def parseElements : List (Json F) → Nat → Except String (List (Predicate F))
  | [], _ => .ok []
  | el :: rest, depth => do
      let child ← (
        if el.isObject then parseObject el (depth + 1)
        else .error "$and/$or element must be an object" : Except String (Predicate F))
      let children ← parseElements rest depth
      .ok (child :: children)
termination_by structural elements => elements

end

/-- A blank byte, as `std::isspace` has it. -/
def isSpaceByte (c : UInt8) : Bool :=
  c = 32 || (9 ≤ c && c ≤ 13)

def trim (text : List UInt8) : List UInt8 :=
  ((text.dropWhile isSpaceByte).reverse.dropWhile isSpaceByte).reverse

/-- A filter text as a predicate; blank text is the empty conjunction. -/
def parsePredicate (lib : ValueLibrary F) (text : List UInt8) : Except String (Predicate F) :=
  let trimmed := trim text
  if trimmed = [] ∨ trimmed = [123, 125] then .ok (.and [])
  else if kMaxFilterJsonBytes < trimmed.length then
    .error ("filter JSON exceeds " ++ toString kMaxFilterJsonBytes ++ " bytes")
  else
    match lib.parse trimmed with
    | .error what => .error ("filter JSON parse error: " ++ what)
    | .ok parsed => parseObject parsed 0

/-! ## The evaluation -/

/-- The elements of an array. -/
def elements : Json F → List (Json F)
  | .array items => items
  | _ => []

def isArray : Json F → Bool
  | .array _ => true
  | _ => false

/-- The test of a leaf at the value its path leads to. -/
def Kind.matches (lib : ValueLibrary F) (v : Option (Json F)) : Kind F → Bool
  | .eq value => v.any (lib.equal · value)
  | .ne value => v.all (lib.unequal · value)
  | .gt value => compareOrdered v value lib.greater
  | .gte value => compareOrdered v value lib.greaterEq
  | .lt value => compareOrdered v value lib.less
  | .lte value => compareOrdered v value lib.lessEq
  | .isIn values => v.any fun x => values.any (lib.equal x)
  | .nin values => v.all fun x => values.all fun target => !lib.equal x target
  | .exists expected => v.isSome == expected
  | .containsAny values => v.any fun x =>
      isArray x && values.any fun target => (elements x).any (lib.equal · target)
  | .containsAll values => v.any fun x =>
      isArray x && values.all fun target => (elements x).any (lib.equal · target)

section

variable (lib : ValueLibrary F) (doc : Json F)

mutual

/-- Below the depth limit nothing matches. -/
def matchesWithDepth : Predicate F → Nat → Bool
  | p, depth =>
      if kMaxPredicateDepth < depth then false
      else
        match p with
        | .leaf path kind => kind.matches lib (resolve doc path)
        | .and children => allMatch children (depth + 1)
        | .or children => anyMatches children (depth + 1)
termination_by structural p => p

def allMatch : List (Predicate F) → Nat → Bool
  | [], _ => true
  | c :: children, depth => matchesWithDepth c depth && allMatch children depth
termination_by structural children => children

def anyMatches : List (Predicate F) → Nat → Bool
  | [], _ => false
  | c :: children, depth => matchesWithDepth c depth || anyMatches children depth
termination_by structural children => children

end

def Predicate.matches (p : Predicate F) : Bool :=
  matchesWithDepth lib doc p 0

end

end AsterVec.Metadata

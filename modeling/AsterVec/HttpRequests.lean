import Mathlib.Algebra.GroupWithZero.Nat
import Mathlib.Algebra.Ring.Int.Defs
import Mathlib.Data.Int.Notation
import Mathlib.Tactic.Common

/-!
What the HTTP handlers read: numbers in text as the C++ library scans them, parsed JSON
values, and the errors the handlers send.
-/

namespace AsterVec.HttpRequests

/-- A blank, as `std::isspace` has it. -/
def isSpace (c : Char) : Bool := c = ' ' || (9 ≤ c.toNat && c.toNat ≤ 13)

/-- Blanks, a sign and decimal digits: the sign, the number and the text after it; `none`
when there is no digit. -/
def scanInteger (text : List Char) : Option (Bool × Nat × List Char) :=
  let text := text.dropWhile isSpace
  let neg := text.head? = some '-'
  let text := if text.head? = some '-' ∨ text.head? = some '+' then text.tail else text
  let digits := text.takeWhile Char.isDigit
  if digits = [] then none
  else
    some (neg, digits.foldl (fun value c => 10 * value + (c.toNat - '0'.toNat)) 0,
      text.dropWhile Char.isDigit)

/-- `std::stoll` and `std::stoi`, by their width: text after the number is not looked at. -/
def scanSigned (bits : Nat) (text : List Char) : Option Int :=
  match scanInteger text with
  | none => none
  | some (neg, value, _) =>
      let i : Int := if neg then -value else value
      if -(2 ^ (bits - 1)) ≤ i ∧ i < 2 ^ (bits - 1) then some i else none

def stoll (text : List Char) : Option Int := scanSigned 64 text

def stoi (text : List Char) : Option Int := scanSigned 32 text

/-- `std::stoull`: a number with a minus sign wraps around. -/
def stoull (text : List Char) : Option (Nat × List Char) :=
  match scanInteger text with
  | none => none
  | some (neg, value, rest) =>
      if value < 2 ^ 64 then some (if neg then (2 ^ 64 - value) % 2 ^ 64 else value, rest)
      else none

theorem scanSigned_lt {bits : Nat} {text : List Char} {i : Int}
    (h : scanSigned bits text = some i) : i < 2 ^ (bits - 1) := by
  unfold scanSigned at h
  split at h
  · cases h
  · simp only [Option.ite_none_right_eq_some, Option.some.injEq] at h
    rcases h with ⟨hbounds, rfl⟩
    exact hbounds.2

/-- A parsed JSON value; `F` is the type of the floating-point numbers. -/
inductive Json (F : Type) where
  | null
  | bool (value : Bool)
  | unsigned (value : Nat)
  | integer (value : Int)
  | float (value : F)
  | string (text : String)
  | array (items : List (Json F))
  | object (members : List (String × Json F))

namespace Json

variable {F : Type}

def isNull : Json F → Bool
  | null => true
  | _ => false

def isObject : Json F → Bool
  | object _ => true
  | _ => false

/-- The value of a member of an object. -/
def find? (key : String) : Json F → Option (Json F)
  | object members => (members.find? (·.1 = key)).map Prod.snd
  | _ => none

end Json

/-- The status, code and text of an error answer. -/
structure HttpError where
  status : Nat
  code : String
  message : String
deriving DecidableEq

/-- The JSON library: its parser, which may throw, and its printer. -/
structure JsonLibrary (F : Type) where
  parse : List UInt8 → Except String (Json F)
  dump : Json F → String

end AsterVec.HttpRequests

/-
JSON values as the vendored jsoncpp has them (utils/jsoncpp.cc).

Messages, parameters and results of commands are such values, and they
come from outside with any shape. A read never fails because a field is
missing: the constant `operator[]` gives null for it, and null converts to
the empty string, to 0 and to false. What fails, with an exception, is
taking a member of something that is no object, and converting a value of
the wrong type. The reading functions therefore return in `Except`.

An object keeps its members by key (`std::map`), so they stand in the
order of their keys and an assignment puts a new one in its place there.
The signed and the unsigned integers of the source are one constructor.
-/
import Mathlib.Data.List.DropRight
import Mathlib.Algebra.Ring.Int.Defs
import Mathlib.Algebra.Ring.Nat

namespace BigDataExpress

inductive Json
  | null
  | bool (b : Bool)
  | int (n : Int)
  | real (x : Float)
  | str (s : String)
  | arr (items : List Json)
  | obj (fields : List (String × Json))

namespace Json

/-- An exception of jsoncpp (`Json::LogicError`). -/
abbrev Read (α : Type) : Type := Except String α

-- ============================================================ conversions

/-- The least decimal exponent at which `num / den < 1` has a digit, at
most `fuel`. -/
def firstDigit (num den : Nat) : Nat → Nat → Nat
  | 0, k => k
  | fuel + 1, k =>
      if den ≤ num * 10 ^ k then k else firstDigit num den fuel (k + 1)

/-- A quotient rounded to the nearest integer, half to even. -/
def roundEven (num den : Nat) : Nat :=
  let q := num / den
  let r := num % den
  if 2 * r < den then q
  else if den < 2 * r then q + 1
  else if q % 2 = 0 then q else q + 1

/-- The 17 significant digits of a positive quotient, and the exponent
of the first of them. -/
def significant (num den : Nat) : Nat × Int :=
  let e : Int :=
    if den ≤ num then (Nat.toDigits 10 (num / den)).length - 1
    else -(firstDigit num den 400 1)
  let shift := 16 - e
  let d := roundEven (num * 10 ^ shift.toNat) (den * 10 ^ (-shift).toNat)
  if d = 10 ^ 17 then (10 ^ 16, e + 1) else (d, e)

/-- Digits with a decimal point after the first `n`, without the zeros
at the end. -/
def pointed (digits : List Char) (n : Nat) : String :=
  let frac := (digits.drop n).rdropWhile (· == '0')
  if frac.isEmpty then String.ofList (digits.take n)
  else String.ofList (digits.take n ++ '.' :: frac)

/-- `%.17g` of a positive quotient. -/
def printG (num den : Nat) : String :=
  let (d, e) := significant num den
  let digits := Nat.toDigits 10 d
  if -4 ≤ e ∧ e < 0 then
    pointed (List.replicate (-e).toNat '0' ++ digits) 1
  else if 0 ≤ e ∧ e < 17 then pointed digits (e + 1).toNat
  else
    let x := Nat.toDigits 10 e.natAbs
    pointed digits 1 ++ (if e < 0 then "e-" else "e+")
      ++ String.ofList (if x.length < 2 then '0' :: x else x)

/-- `valueToString(double)`, off the binary representation. -/
def valueToString (x : Float) : String :=
  let bits := x.toBits.toNat
  let sign := if 2 ^ 63 ≤ bits then "-" else ""
  let exponent := bits / 2 ^ 52 % 2 ^ 11
  let fraction := bits % 2 ^ 52
  if exponent = 2047 then
    if fraction ≠ 0 then "null" else sign ++ "1e+9999"
  else
    let m := if exponent = 0 then fraction else 2 ^ 52 + fraction
    let e := max exponent 1
    if m = 0 then sign ++ "0"
    else sign ++ printG (m * 2 ^ (e - 1075)) (2 ^ (1075 - e))

def isNull : Json → Bool
  | .null => true
  | _ => false

def asString : Json → Read String
  | .null => pure ""
  | .str s => pure s
  | .bool b => pure (if b then "true" else "false")
  | .int n => pure (toString n)
  | .real x => pure (valueToString x)
  | _ => throw "Type is not convertible to string"

/-- An `Int` has 32 bits. -/
def isInt (n : Int) : Bool := decide (-2 ^ 31 ≤ n ∧ n < 2 ^ 31)

def asInt : Json → Read Int
  | .null => pure 0
  | .bool b => pure (if b then 1 else 0)
  | .int n => if isInt n then pure n else throw "LargestInt out of Int range"
  | .real x =>
      if -2147483648 ≤ x ∧ x ≤ 2147483647 then pure x.toInt32.toInt
      else throw "double out of Int range"
  | _ => throw "Value is not convertible to Int."

def asInt64 : Json → Read Int
  | .null => pure 0
  | .bool b => pure (if b then 1 else 0)
  | .int n =>
      if -2 ^ 63 ≤ n ∧ n < 2 ^ 63 then pure n
      else throw "LargestUInt out of Int64 range"
  | .real x =>
      if -9223372036854775808 ≤ x ∧ x ≤ 9223372036854775807 then
        pure x.toInt64.toInt
      else throw "double out of Int64 range"
  | _ => throw "Value is not convertible to Int64."

def asUInt64 : Json → Read Nat
  | .null => pure 0
  | .bool b => pure (if b then 1 else 0)
  | .int n =>
      if 0 ≤ n ∧ n < 2 ^ 64 then pure n.toNat
      else throw "LargestInt out of UInt64 range"
  | .real x =>
      if 0 ≤ x ∧ x ≤ 18446744073709551615 then pure x.toUInt64.toNat
      else throw "double out of UInt64 range"
  | _ => throw "Value is not convertible to UInt64."

def asDouble : Json → Read Float
  | .null => pure 0
  | .bool b => pure (if b then 1 else 0)
  | .int n => pure (Float.ofInt n)
  | .real x => pure x
  | _ => throw "Value is not convertible to double."

def asBool : Json → Read Bool
  | .null => pure false
  | .bool b => pure b
  | .int n => pure (n != 0)
  | .real x => pure (x != 0)
  | _ => throw "Value is not convertible to bool."

-- ================================================================ members

/-- The member under a key, in a list of members. -/
def lookup (key : String) : List (String × Json) → Option Json
  | [] => none
  | (k, v) :: rest => if k = key then some v else lookup key rest

/-- The members of an object, null being an empty one. -/
def members : Json → Read (List (String × Json))
  | .null => pure []
  | .obj fields => pure fields
  | _ => throw "requires objectValue or nullValue"

/-- `operator[](key)` -/
def get (v : Json) (key : String) : Read Json := do
  let fields ← v.members
  pure ((lookup key fields).getD .null)

/-- `v[k₁]...[kₙ]` of a constant. -/
def getIn (v : Json) : List String → Read Json
  | [] => pure v
  | key :: keys => do
      let inner ← v.get key
      inner.getIn keys

def isMember (v : Json) (key : String) : Read Bool := do
  let fields ← v.members
  pure (lookup key fields).isSome

/-- The members with one assigned. -/
def assign (key : String) (v : Json) :
    List (String × Json) → List (String × Json)
  | [] => [(key, v)]
  | (k, x) :: rest =>
      if k = key then (k, v) :: rest
      else if key < k then (key, v) :: (k, x) :: rest
      else (k, x) :: assign key v rest

/-- `v[key] = x`; null becomes an object. -/
def set (v : Json) (key : String) (x : Json) : Read Json := do
  let fields ← v.members
  pure (.obj (assign key x fields))

/-- `v[k₁]...[kₙ] = x`; what is missing on the way becomes an object. -/
def setIn (v : Json) : List String → Json → Read Json
  | [], x => pure x
  | key :: keys, x => do
      let inner ← v.get key
      let inner ← inner.setIn keys x
      v.set key inner

/-- `removeMember(key)` of an object. -/
def removeMember (v : Json) (key : String) : Json :=
  match v with
  | .obj fields => .obj (fields.filter fun kv => kv.1 ≠ key)
  | v => v

/-- `operator[](index)` -/
def index (v : Json) (i : Nat) : Read Json :=
  match v with
  | .null => pure .null
  | .arr items => pure (items[i]?.getD .null)
  | _ => throw "requires arrayValue"

def size : Json → Nat
  | .arr items => items.length
  | .obj fields => fields.length
  | _ => 0

/-- `empty()` -/
def empty : Json → Bool
  | .null => true
  | .arr items => items.isEmpty
  | .obj fields => fields.isEmpty
  | _ => false

/-- What a loop over the value goes through. -/
def items : Json → List Json
  | .arr items => items
  | .obj fields => fields.map Prod.snd
  | _ => []

/-- An object made of the given members, in whatever order they are
written. -/
def object (fields : List (String × Json)) : Json :=
  .obj (fields.foldl (fun acc kv => assign kv.1 kv.2 acc) [])

end Json

end BigDataExpress

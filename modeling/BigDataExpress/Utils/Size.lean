/-
Sizes as a person writes them: a count and a unit (`string2size` in
utils/utils.cc, and the group size in the constructor of the scheduler,
server/scheduler.cc).

There are two readers, and they share no code. `string2size` scans a count
with `%zu`, which gives the greatest 64-bit number for a count that is
greater, and takes the word behind it for a unit; what it cannot read
counts as 0, without a unit. The scheduler cuts the last two characters
off, converts what is before them with `stoll`, which throws for a number
beyond 63 bits, and looks at the first of the two only. Its units are
binary, those of `string2size` decimal unless they have an `i` in them.
Both multiply in 64 bits.

A string ends at its first zero character for the functions of C.
-/
import BigDataExpress.Utils.GridMapfile
import Mathlib.Algebra.Ring.Int.Defs
import Mathlib.Algebra.Ring.Nat

namespace BigDataExpress

open Text
open GridMapfile (isspace)

/-- How a reader of sizes ends. -/
inductive SizeEnd
  | size (n : UInt64)
  | thrown (what : String)
  /-- a unit is written beyond the end of its buffer -/
  | undefined
deriving DecidableEq

-- ============================================================== scanning

/-- `c_str`, up to the zero character that ends it. -/
def cString (str : Chars) : Chars := str.takeWhile (· ≠ '\x00')

/-- A sign, if there is one: is it a minus? -/
def scanSign : Chars → Bool × Chars
  | '-' :: cs => (true, cs)
  | '+' :: cs => (false, cs)
  | cs => (false, cs)

/-- What the conversions of C read of an integer: the sign, the digits,
and what is behind them. -/
def scanInteger (cs : Chars) : Option (Bool × Chars × Chars) :=
  let (minus, cs) := scanSign (cs.dropWhile isspace)
  let digits := cs.takeWhile Char.isDigit
  if digits = [] then none
  else some (minus, digits, cs.dropWhile Char.isDigit)

def numberOf (digits : Chars) : Nat := Nat.ofDigitChars 10 digits 0

/-- `%zu`: a number that does not fit gives the greatest that does, and a
minus negates. -/
def scannedSize (minus : Bool) (digits : Chars) : UInt64 :=
  let n := numberOf digits
  if 2 ^ 64 ≤ n then UInt64.ofNat (2 ^ 64 - 1)
  else if minus then -UInt64.ofNat n
  else UInt64.ofNat n

/-- `%s` -/
def scanWord (cs : Chars) : Chars :=
  (cs.dropWhile isspace).takeWhile fun c => !isspace c

/-- `sscanf(str, "%zu%s", &size, unit)`, from a size of 0 and an empty
unit. -/
def sscanfSize (str : Chars) : UInt64 × Chars :=
  match scanInteger (cString str) with
  | none => (0, [])
  | some (minus, digits, rest) => (scannedSize minus digits, scanWord rest)

-- =========================================================== string2size

/-- `BUFSIZ` of the library. -/
def bufsiz : Nat := 8192

/-- The table of units. -/
def sizeUnits : List (Chars × Nat) :=
  [("KB".toList, 10 ^ 3), ("kB".toList, 10 ^ 3), ("K".toList, 10 ^ 3),
    ("k".toList, 10 ^ 3), ("MB".toList, 10 ^ 6), ("M".toList, 10 ^ 6),
    ("GB".toList, 10 ^ 9), ("G".toList, 10 ^ 9), ("TB".toList, 10 ^ 12),
    ("T".toList, 10 ^ 12), ("P".toList, 10 ^ 15), ("PB".toList, 10 ^ 15),
    ("KiB".toList, 1024), ("MiB".toList, 1024 * 1024),
    ("GiB".toList, 1024 * 1024 * 1024)]

def unknownUnit (unit : Chars) : String :=
  "Don't know how to handle unit \x22" ++ String.ofList unit ++ "\x22"

/-- `utils::string2size` -/
def string2size (str : Chars) : SizeEnd :=
  let (size, unit) := sscanfSize str
  if bufsiz ≤ unit.length then .undefined
  else
    match sizeUnits.lookup unit with
    | some factor => .size (size * UInt64.ofNat factor)
    | none => if unit = [] then .size size else .thrown (unknownUnit unit)

-- ============================================================ group_size

/-- `std::stoll` -/
def stoll (str : Chars) : Except String Int :=
  match scanInteger (cString str) with
  | none => throw "stoll"
  | some (minus, digits, _) =>
      let n : Int := if minus then -numberOf digits else numberOf digits
      if -2 ^ 63 ≤ n ∧ n < 2 ^ 63 then pure n else throw "stoll"

/-- The unit of a letter. -/
def groupUnit (c : Char) : Option Nat :=
  if c = 'K' ∨ c = 'k' then some 1024
  else if c = 'M' ∨ c = 'm' then some (1024 * 1024)
  else if c = 'G' ∨ c = 'g' then some (1024 * 1024 * 1024)
  else if c = 'T' ∨ c = 't' then some (1024 * 1024 * 1024 * 1024)
  else none

/-- The group size of the scheduler. The number is converted before the
unit is looked at. -/
def schedulerGroupSize (str : Chars) : SizeEnd :=
  if str.length < 2 then
    .thrown ("invalid group_size: " ++ String.ofList str)
  else
    let unit := str.drop (str.length - 2)
    match stoll (str.take (str.length - 2)) with
    | .error what => .thrown what
    | .ok num =>
        match unit.head?.bind groupUnit with
        | some factor => .size (UInt64.ofInt num * UInt64.ofNat factor)
        | none => .thrown ("invalid unit: " ++ String.ofList unit)

end BigDataExpress

/-
Points of a time series (utils/tsdb.h, utils/tsdb-helpers.h and `escape`
of utils/tsdb.cc).

A measurement is named once, with its fields and tags, and is then given
values for them. What is posted is one line: the measurement, the tags,
and the fields. Only tags and the first field are escaped. A tag without
a name or a value is left out, and a field without a name; if no field is
left, nothing is posted.

The rows are tuples of the types that have a `format`, of which the
integers, Booleans and strings are here.
-/
import BigDataExpress.Utils.GridMapfile

namespace BigDataExpress

open Text
open GridMapfile (isspace quote)

-- ================================================================ format

/-- An element of `row_t`. -/
inductive FieldValue
  | bool (v : Bool)
  | string (v : Chars)
  | number (v : Int)
deriving DecidableEq, Repr

/-- `std::to_string` -/
def toDecimal : Int → Chars
  | .ofNat n => Nat.toDigits 10 n
  | .negSucc n => '-' :: Nat.toDigits 10 (n + 1)

def format : FieldValue → Chars
  | .bool v => if v then "true".toList else "false".toList
  | .string v => quote v
  | .number v => toDecimal v

/-- `utils::escape` -/
def escape (str : Chars) : Chars :=
  str.flatMap fun c =>
    if c = ',' ∨ c = '=' ∨ isspace c = true then ['\\', c] else [c]

-- ============================================================== builders

/-- `field_set_builder` for the first element. -/
def firstField (f : Chars × FieldValue) : Chars :=
  if f.1 ≠ [] ∧ format f.2 ≠ [] then escape f.1 ++ '=' :: format f.2 else []

/-- `field_set_builder` for an element after the first. -/
def laterField (str : Chars) (f : Chars × FieldValue) : Chars :=
  if f.1 ≠ [] ∧ format f.2 ≠ [] then str ++ ',' :: f.1 ++ '=' :: format f.2
  else str

/-- `field_set_builder`. The recursion gets to the first element before it
writes any. -/
def fieldSet : List (Chars × FieldValue) → Chars
  | [] => []
  | first :: later => later.foldl laterField (firstField first)

/-- A step of the loop of `tag_set_builder`. -/
def nextTag (str : Chars) (t : Chars × Chars) : Chars :=
  if t.1 ≠ [] ∧ t.2 ≠ [] then str ++ ',' :: escape t.1 ++ '=' :: escape t.2
  else str

/-- `tag_set_builder` -/
def tagSet (tags : List (Chars × Chars)) : Chars := tags.foldl nextTag []

-- ================================================================ insert

structure TimeSeriesMeasurement (numTags numFields : Nat) where
  measurement : Chars
  fieldNames : Vector Chars numFields
  tagNames : Vector Chars numTags

namespace TimeSeriesMeasurement

variable {numTags numFields : Nat}
  (m : TimeSeriesMeasurement numTags numFields)
  (fieldValues : Vector FieldValue numFields) (tagValues : Vector Chars numTags)

/-- The elements of the tuple, each with the name of its field. -/
def row : List (Chars × FieldValue) :=
  m.fieldNames.toList.zip fieldValues.toList

def tags : List (Chars × Chars) := m.tagNames.toList.zip tagValues.toList

/-- What `insert` posts, if it does. -/
def insert : Option Chars :=
  let query := m.measurement ++ tagSet (m.tags tagValues)
  let str := fieldSet (m.row fieldValues)
  if str = [] then none else some (query ++ ' ' :: str)

end TimeSeriesMeasurement

end BigDataExpress

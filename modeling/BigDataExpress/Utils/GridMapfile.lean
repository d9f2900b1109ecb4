/-
The grid-mapfile (utils/grid-mapfile.cc): pairs of a distinguished name
and a local user, one on a line. The lines of BDE are in a section of their
own between two marker lines; the other lines are the system's.

`get_entries` and `push_entries` do not read the file in the same way. The
reader trims a line first and takes every line that starts with a marker
for one, the writer looks for lines that are exactly the markers. The
writer has three branches: a new file, a file without a section, where the
section is appended, and a file with one, whose lines are replaced. Only
the last quotes the names.

Left out are the log, and files that cannot be opened.
-/
import BigDataExpress.Lib.Multimap
import BigDataExpress.Lib.Text
import Mathlib.Data.Char
import Mathlib.Data.List.Lex

namespace BigDataExpress

namespace GridMapfile

open Text

def beginMarker : Chars := "## BEGIN-BDE-SECTION".toList
def endMarker : Chars := "## END-BDE-SECTION".toList
def quotingChar : Char := '\x22'
def commentChar : Char := '#'

/-- `WHITESPACE_CHARS` -/
def whitespaceChars : List Char := [' ', '\t', '\n']

/-- `std::isspace` -/
def isspace (c : Char) : Bool :=
  decide (c ∈ [' ', '\t', '\n', '\x0b', '\x0c', '\r'])

/-- A name and a user. -/
abbrev Entry : Type := Chars × Chars

/-- `gridmap_entries` -/
abbrev Entries : Type := Multimap Chars Chars

-- ================================================================ strings

def hasQuotedDn (line : Chars) : Bool := [quotingChar].isPrefixOf line

def isCommentLine (line : Chars) : Bool := [commentChar].isPrefixOf line

def isBeginMarker (line : Chars) : Bool := beginMarker.isPrefixOf line

def isEndMarker (line : Chars) : Bool := endMarker.isPrefixOf line

def quote (str : Chars) : Chars := [quotingChar] ++ str ++ [quotingChar]

def splitString (str : Chars) (delim : List Char) : List Chars :=
  (getlines str).flatMap (tokens fun c => decide (c ∈ delim))

-- ============================================================ get_entries

/-- The variables of the reading loop. -/
structure Reader where
  system : Bool := true
  systemEntries : Entries := .empty
  bdeEntries : Entries := .empty

/-- `grid_map` -/
structure GridMap where
  path : String
  systemEntries : Entries := .empty
  bdeEntries : Entries := .empty

namespace Reader

def emplace (r : Reader) (pair : Entry) : Reader :=
  if r.system then { r with systemEntries := r.systemEntries.emplace pair }
  else { r with bdeEntries := r.bdeEntries.emplace pair }

/-- The marker tests. -/
def mark (r : Reader) (line : Chars) : Reader :=
  let r := if isBeginMarker line then { r with system := false } else r
  if isEndMarker line then { r with system := true } else r

end Reader

def malformed (line : Chars) : String :=
  "malformed line: \x22" ++ String.ofList line ++ "\x22"

/-- `v.at(2)` of a vector of two. -/
def outOfRange : String :=
  "vector::_M_range_check: __n (which is 2) >= this->size() (which is 2)"

/-- One turn of the reading loop. In the unquoted branch the pieces are
taken at 1 and 2. -/
def readLine (r : Reader) (line : Chars) : Except String Reader :=
  let line := trim isspace line
  let r := r.mark line
  if line = [] ∨ isCommentLine line = true then pure r
  else if hasQuotedDn line then
    match splitString line [quotingChar] with
    | [dn, user] => pure (r.emplace (dn, trim isspace user))
    | _ => throw (malformed line)
  else
    match splitString line whitespaceChars with
    | [_, _] => throw outOfRange
    | _ => throw (malformed line)

def readLines (r : Reader) : List Chars → Except String Reader
  | [] => pure r
  | line :: lines => do
      let r ← readLine r line
      readLines r lines

/-- `grid_mapfile_get_entries`, of the file of a name; `none` is a file
that does not exist. -/
def getEntries (name : String) : Option Chars → Except String GridMap
  | none => throw (name ++ " does not exist")
  | some text => do
      let r ← readLines {} (getlines text)
      pure ⟨name, r.systemEntries, r.bdeEntries⟩

-- =========================================================== push_entries

/-- How `push_entries` ends, with the file it leaves. -/
inductive PushEnd
  | written (text : Chars)
  | thrown (what : String) (left : Option Chars)
  /-- an iterator is used after it was invalidated -/
  | undefined
deriving DecidableEq

/-- What the library does: the capacity of a vector after a number of
`emplace_back` calls, and the errors of the two `rename` calls. -/
structure Runtime where
  capacity : Nat → Nat
  size_le : ∀ n, n ≤ capacity n
  backup : Option String := none
  replace : Option String := none

/-- A line of the first two branches. -/
def plainLine (p : Entry) : Chars := p.1 ++ [' '] ++ p.2

/-- A line of the third branch. -/
def quotedLine (p : Entry) : Chars := quote p.1 ++ [' '] ++ p.2

/-- The section as the first two branches write it. -/
def newSection (entries : Entries) : List Chars :=
  [beginMarker] ++ entries.entries.map plainLine ++ [endMarker]

/-- The inserting loop of the third branch, at the index behind the last
line it inserted. An insertion into a full vector moves it, and `beginp`
must not be used again. -/
def insertLines (capacity : Nat) :
    List Entry → Nat → List Chars → Option (List Chars)
  | [], _, lines => some lines
  | [p], i, lines => some (lines.insertIdx i (quotedLine p))
  | p :: q :: ps, i, lines =>
      if lines.length = capacity then none
      else
        insertLines capacity (q :: ps) (i + 1)
          (lines.insertIdx i (quotedLine p))

/-- The lines with the new entries: `none` for an invalidated iterator, and
an error without an end marker. -/
def replaceLines (name : String) (capacity : Nat) (entries : Entries)
    (lines : List Chars) : Except String (Option (List Chars)) :=
  let i := lines.idxOf beginMarker
  if i = lines.length then
    pure (some (lines ++ newSection entries))
  else
    let j := i + (lines.drop i).idxOf endMarker
    if j = lines.length then throw ("Could not find end marker in " ++ name)
    else
      pure (insertLines capacity entries.entries (i + 1)
        (lines.take (i + 1) ++ lines.drop j))

/-- `grid_mapfile_push_entries` -/
def pushEntries (rt : Runtime) (name : String) (entries : Entries) :
    Option Chars → PushEnd
  | none => .written (unlines (newSection entries))
  | some text =>
      let lines := getlines text
      match replaceLines name (rt.capacity lines.length) entries lines with
      | .error what => .thrown what (some text)
      | .ok none => .undefined
      | .ok (some lines) =>
          match rt.backup, rt.replace with
          | some what, _ => .thrown what (some text)
          | none, some what => .thrown what none
          | none, none => .written (unlines lines)

end GridMapfile

end BigDataExpress

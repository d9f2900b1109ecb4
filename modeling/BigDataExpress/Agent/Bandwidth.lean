/-
The potential bandwidth of a storage (agent/localstorageagent.cc and
agent/scanner.cc).

Both agents run iozone with one thread, with two, and so on, first to
write and then to read, and keep two running maxima. A local agent does
this for its device and stores the two; the scanner of a shared storage
does it for every OST in a range, and adds up.

What iozone prints is a parameter, and so is `stod`; the commands are left
out, and so is the rounding of numbers. The range of OSTs ends before the
greatest `int`.
-/
import BigDataExpress.Utils.GridMapfile
import Mathlib.Algebra.Order.Ring.Rat

namespace BigDataExpress

open Text

namespace Bandwidth

-- ============================================================== one answer

/-- The two tests of iozone: `-i0` and `-i1`. -/
inductive Test
  | write
  | read
deriving DecidableEq, Repr

/-- `is_empty`: a newline at the end is removed, and then there may be
nothing but space. -/
def withoutNewline (s : Chars) : Chars :=
  if s.getLast? = some '\n' then s.dropLast else s

/-- `split_string`, at spaces. -/
def splitString (str : Chars) : List Chars :=
  ((str.splitOn ' ').map withoutNewline).filter fun s =>
    !s.all GridMapfile.isspace

/-- The number in an answer, in a unit. An answer of less than 8 words is
none; a word that `stod` throws at is no number. -/
def reading (stod : Chars → Option ℚ) (unit : ℚ) (ret : Chars) :
    Option (Option ℚ) :=
  (splitString ret)[7]?.map fun word => (stod word).map (· / unit)

end Bandwidth

/-- `writebw` and `readbw`. -/
structure Bandwidth where
  write : ℚ := 0
  read : ℚ := 0
deriving DecidableEq, Repr

namespace Bandwidth

def raiseWrite (b : Bandwidth) : Option ℚ → Bandwidth
  | none => b
  | some bw => if b.write < bw then { b with write := bw } else b

/-- The test of a read bandwidth is against the write bandwidth. -/
def raiseRead (b : Bandwidth) : Option ℚ → Bandwidth
  | none => b
  | some bw => if b.write < bw then { b with read := bw } else b

/-- `m_writebw += writebw` and `m_readbw += readbw` -/
def plus (total b : Bandwidth) : Bandwidth where
  write := total.write + b.write
  read := total.read + b.read

section Loops

variable (stod : Chars → Option ℚ) (unit : ℚ)

/-- One turn of the loop over threads: `none` ends the function. -/
def probe (answer : Test → Chars) (b : Bandwidth) : Option Bandwidth := do
  let bw ← reading stod unit (answer .write)
  let b := b.raiseWrite bw
  let bw ← reading stod unit (answer .read)
  pure (b.raiseRead bw)

/-- The loop over threads. -/
def probes (answer : Nat → Test → Chars) (threads : Nat) (b : Bandwidth) :
    Option Bandwidth :=
  (List.range threads).foldlM (fun b i => probe stod unit (answer i) b) b

end Loops

end Bandwidth

-- ======================================================= LocalStorageAgent

namespace LocalStorageAgent

open Bandwidth

/-- `m_iozone_max_threads` -/
def iozoneMaxThreads : Nat := 8

/-- `LocalStorageAgent::get_potential_bandwidth`: the code it returns, and
what is stored afterwards. -/
def getPotentialBandwidth (stod : Chars → Option ℚ)
    (answer : Nat → Test → Chars) (stored : Option Bandwidth) :
    Int × Option Bandwidth :=
  match probes stod 1000 answer iozoneMaxThreads {} with
  | none => (-1, stored)
  | some b => (0, some b)

end LocalStorageAgent

-- ================================================================ Scanner

namespace Scanner

open Bandwidth

/-- `m_iozone_max_threads` -/
def iozoneMaxThreads : Nat := 4

def osts (low high : Int) : List Int :=
  (List.range (high + 1 - low).toNat).map fun k : Nat => low + (k : Int)

/-- One turn of the loop over OSTs, on `writebw` and `readbw` and on the
two members. The first two go on with what they have. -/
def scanOst (stod : Chars → Option ℚ) (answer : Int → Nat → Test → Chars) :
    Bandwidth × Bandwidth → Int → Except Bandwidth (Bandwidth × Bandwidth)
  | (b, total), ost =>
      match probes stod 1024 (answer ost) iozoneMaxThreads b with
      | none => throw total
      | some b => pure (b, total.plus b)

/-- `Scanner::get_potential_bandwidth`: the code it returns, and the
members `m_writebw` and `m_readbw`. -/
def getPotentialBandwidth (stod : Chars → Option ℚ)
    (answer : Int → Nat → Test → Chars) (low high : Int) : Int × Bandwidth :=
  match (osts low high).foldlM (scanOst stod answer) ({}, {}) with
  | .error total => (-1, total)
  | .ok (_, total) => (0, total)

end Scanner

end BigDataExpress

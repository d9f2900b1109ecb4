/-
JSON as it goes over the wire: `Json::FastWriter` and `Json::Reader` of the
vendored jsoncpp (utils/jsoncpp.cc). Every message of the system is
written by the one (`Mqtt::publish`) and read by the other.

A text is a sequence of bytes, and a byte is the character of its code.
The reader has default features: comments are skipped, and what follows
the value is not looked at. When something is not as it should be, it
notes an error, runs on to a closing bracket and returns false in the end;
since nobody asks for the errors, the first one ends the reading here. A
value inside 1000 others is an exception. That counter is one for all
threads, which are taken to read one at a time.

How the characters of a number become a double is the library's business
(`operator>>`), so it is a parameter; none is a failure. Negating the least
64-bit integer wraps, as on the machine.

Left out: comments and the offsets of values, which nothing reads.
-/
import BigDataExpress.Lib.Text
import BigDataExpress.Utils.Json

namespace BigDataExpress

namespace Json

open Text

-- ================================================================ writer

/-- `isControlCharacter` -/
def isControlCharacter (c : Char) : Bool :=
  decide (0 < c.toNat ∧ c.toNat ≤ 0x1F)

/-- A digit of a number in base 16, in capitals. -/
def upperHex (n : Nat) : Char :=
  if n < 10 then Char.ofNat (48 + n) else Char.ofNat (55 + n)

/-- A backslash, `u`, and four digits. -/
def unicodeEscape (n : Nat) : Chars :=
  ['\\', 'u', upperHex (n / 4096 % 16), upperHex (n / 256 % 16),
    upperHex (n / 16 % 16), upperHex (n % 16)]

/-- The characters that have an escape of their own, with its letter. -/
def shortEscapes : List (Char × Char) :=
  [('\x22', '\x22'), ('\\', '\\'), ('\x08', 'b'), ('\x0c', 'f'),
    ('\n', 'n'), ('\x0d', 'r'), ('\t', 't')]

def escapeChar (c : Char) : Chars :=
  match shortEscapes.lookup c with
  | some letter => ['\\', letter]
  | none =>
      if isControlCharacter c || c == '\x00' then unicodeEscape c.toNat
      else [c]

/-- Does nothing in a string have to be escaped? -/
def isPlain (value : Chars) : Bool :=
  value.all fun c => (shortEscapes.lookup c).isNone
    && !(isControlCharacter c || c == '\x00')

def valueToQuotedStringN (value : Chars) : Chars :=
  if isPlain value then '\x22' :: value ++ ['\x22']
  else '\x22' :: value.flatMap escapeChar ++ ['\x22']

/-- `valueToString(LargestInt)`, and of a `LargestUInt`. -/
def integerToString : Int → Chars
  | .ofNat n => Nat.toDigits 10 n
  | .negSucc n => '-' :: Nat.toDigits 10 (n + 1)

namespace FastWriter

mutual

/-- `writeValue` -/
def writeValue : Json → Chars
  | .null => "null".toList
  | .bool b => if b then "true".toList else "false".toList
  | .int n => integerToString n
  | .real x => (valueToString x).toList
  | .str s => valueToQuotedStringN s.toList
  | .arr items => '[' :: writeItems items ++ [']']
  | .obj fields => '\x7b' :: writeMembers fields ++ ['\x7d']

/-- The elements of an array, with commas between them. -/
def writeItems : List Json → Chars
  | [] => []
  | v :: rest =>
      writeValue v ++ if rest.isEmpty then [] else ',' :: writeItems rest

/-- The members of an object, with commas between them. -/
def writeMembers : List (String × Json) → Chars
  | [] => []
  | (name, v) :: rest =>
      valueToQuotedStringN name.toList ++ ':' :: writeValue v
        ++ if rest.isEmpty then [] else ',' :: writeMembers rest

end

/-- `FastWriter::write` -/
def write (root : Json) : Chars := writeValue root ++ ['\n']

end FastWriter

-- ================================================================ tokens

namespace Reader

/-- A token. Of a string there is what stands between the quotes. -/
inductive Token
  | objectBegin
  | objectEnd
  | arrayBegin
  | arrayEnd
  | string (text : Chars)
  | number (text : Chars)
  | true_
  | false_
  | null
  | arraySeparator
  | memberSeparator
  | comment
  | endOfStream
  | error
deriving DecidableEq, Repr

def isSpace (c : Char) : Bool :=
  c == ' ' || c == '\t' || c == '\x0d' || c == '\n'

def skipSpaces (text : Chars) : Chars := text.dropWhile isSpace

/-- A part of a text, and the text behind it. -/
def digits (text : Chars) : Chars × Chars :=
  (text.takeWhile Char.isDigit, text.dropWhile Char.isDigit)

/-- The digits behind some characters that were read already. -/
def digitsAfter (start text : Chars) : Chars × Chars :=
  (start ++ (digits text).1, (digits text).2)

def fractionalPart : Chars → Chars × Chars
  | '.' :: text => digitsAfter ['.'] text
  | text => ([], text)

/-- The digits of an exponent, and a sign before them. -/
def signedDigits (letter : Char) : Chars → Chars × Chars
  | '+' :: text => digitsAfter [letter, '+'] text
  | '-' :: text => digitsAfter [letter, '-'] text
  | text => digitsAfter [letter] text

def exponentialPart : Chars → Chars × Chars
  | 'e' :: text => signedDigits 'e' text
  | 'E' :: text => signedDigits 'E' text
  | text => ([], text)

/-- `readNumber`; the first character was read already. -/
def readNumber (first : Char) (text : Chars) : Token × Chars :=
  let (whole, text) := digits text
  let (fraction, text) := fractionalPart text
  let (exponent, text) := exponentialPart text
  (.number (first :: whole ++ fraction ++ exponent), text)

/-- `readString`: what stands before the quote that has no backslash
before it. -/
def readString : Chars → Option (Chars × Chars)
  | [] => none
  | ['\\'] => none
  | '\\' :: c :: text => (readString text).map fun r => ('\\' :: c :: r.1, r.2)
  | c :: text =>
      if c = '\x22' then some ([], text)
      else (readString text).map fun r => (c :: r.1, r.2)

/-- `readCStyleComment` -/
def readCStyleComment : Chars → Option Chars
  | [] => none
  | '*' :: '/' :: text => some text
  | _ :: text => readCStyleComment text

/-- `readCppStyleComment` -/
def readCppStyleComment : Chars → Chars
  | [] => []
  | '\n' :: text => text
  | '\x0d' :: '\n' :: text => text
  | '\x0d' :: text => text
  | _ :: text => readCppStyleComment text

/-- `readComment`; a failure inside a C style comment leaves the reader at
the end of the text. -/
def readComment : Chars → Token × Chars
  | '*' :: text =>
      match readCStyleComment text with
      | some text => (.comment, text)
      | none => (.error, [])
  | '/' :: text => (.comment, readCppStyleComment text)
  | _ :: text => (.error, text)
  | [] => (.error, [])

/-- `match`: the rest of a word, or an error before it. -/
def matchWord (pattern : Chars) (token : Token) (text : Chars) :
    Token × Chars :=
  if pattern.isPrefixOf text then (token, text.drop pattern.length)
  else (.error, text)

/-- The token that begins with a character. -/
def tokenFrom (c : Char) (text : Chars) : Token × Chars :=
  match c with
  | '\x7b' => (.objectBegin, text)
  | '\x7d' => (.objectEnd, text)
  | '[' => (.arrayBegin, text)
  | ']' => (.arrayEnd, text)
  | '\x22' =>
      match readString text with
      | some (s, text) => (.string s, text)
      | none => (.error, [])
  | '/' => readComment text
  | 't' => matchWord "rue".toList .true_ text
  | 'f' => matchWord "alse".toList .false_ text
  | 'n' => matchWord "ull".toList .null text
  | ',' => (.arraySeparator, text)
  | ':' => (.memberSeparator, text)
  | '\x00' => (.endOfStream, text)
  | c => if c.isDigit || c == '-' then readNumber c text else (.error, text)

/-- `readToken` -/
def readToken (text : Chars) : Token × Chars :=
  match skipSpaces text with
  | [] => (.endOfStream, [])
  | c :: text => tokenFrom c text

/-- The first token that is no comment, among the next `fuel + 1`. -/
def skipCommentTokens : Nat → Chars → Token × Chars
  | 0, text => readToken text
  | fuel + 1, text =>
      let (token, text) := readToken text
      if token = .comment then skipCommentTokens fuel text
      else (token, text)

-- ============================================================== decoding

/-- `codePointToUTF8`, byte by byte. -/
def codePointToUTF8 (cp : Nat) : Chars :=
  if cp ≤ 0x7f then [Char.ofNat cp]
  else if cp ≤ 0x7FF then
    [Char.ofNat (0xC0 + cp / 64 % 32), Char.ofNat (0x80 + cp % 64)]
  else if cp ≤ 0xFFFF then
    [Char.ofNat (0xE0 + cp / 4096 % 16), Char.ofNat (0x80 + cp / 64 % 64),
      Char.ofNat (0x80 + cp % 64)]
  else if cp ≤ 0x10FFFF then
    [Char.ofNat (0xF0 + cp / 262144 % 8), Char.ofNat (0x80 + cp / 4096 % 64),
      Char.ofNat (0x80 + cp / 64 % 64), Char.ofNat (0x80 + cp % 64)]
  else []

def hexValue (c : Char) : Option Nat :=
  if '0' ≤ c ∧ c ≤ '9' then some (c.toNat - 48)
  else if 'a' ≤ c ∧ c ≤ 'f' then some (c.toNat - 87)
  else if 'A' ≤ c ∧ c ≤ 'F' then some (c.toNat - 55)
  else none

/-- `decodeUnicodeEscapeSequence` -/
def decodeUnicodeEscapeSequence : Chars → Option (Nat × Chars)
  | a :: b :: c :: d :: text => do
      let a ← hexValue a
      let b ← hexValue b
      let c ← hexValue c
      let d ← hexValue d
      pure (((a * 16 + b) * 16 + c) * 16 + d, text)
  | _ => none

/-- The second half of a surrogate pair. -/
def decodeSurrogatePair (unicode : Nat) : Chars → Option (Nat × Chars)
  | '\\' :: 'u' :: text => do
      let (surrogatePair, text) ← decodeUnicodeEscapeSequence text
      pure (0x10000 + unicode % 1024 * 1024 + surrogatePair % 1024, text)
  | _ => none

/-- `decodeUnicodeCodePoint` -/
def decodeUnicodeCodePoint (text : Chars) : Option (Nat × Chars) := do
  let (unicode, text) ← decodeUnicodeEscapeSequence text
  if 0xD800 ≤ unicode ∧ unicode ≤ 0xDBFF then decodeSurrogatePair unicode text
  else pure (unicode, text)

/-- The escapes of one letter. -/
def letterEscapes : List (Char × Char) :=
  [('\x22', '\x22'), ('/', '/'), ('\\', '\\'), ('b', '\x08'),
    ('f', '\x0c'), ('n', '\n'), ('r', '\x0d'), ('t', '\t')]

/-- What an escape stands for, behind its backslash. -/
def decodeEscape : Chars → Option (Chars × Chars)
  | [] => none
  | 'u' :: text =>
      (decodeUnicodeCodePoint text).map fun r => (codePointToUTF8 r.1, r.2)
  | letter :: text => (letterEscapes.lookup letter).map fun c => ([c], text)

/-- The loop of `decodeString`, over at most `fuel` characters and
escapes. -/
def decodeChars : Nat → Chars → Option Chars
  | 0, _ => some []
  | _ + 1, [] => some []
  | fuel + 1, '\\' :: text => do
      let (c, text) ← decodeEscape text
      let decoded ← decodeChars fuel text
      pure (c ++ decoded)
  | fuel + 1, c :: text =>
      if c = '\x22' then some []
      else (decodeChars fuel text).map (c :: ·)

/-- `decodeString` -/
def decodeString (text : Chars) : Option String :=
  (decodeChars text.length text).map String.ofList

/-- The loop of `decodeNumber`: none is a number to be read as a double. -/
def decodeDigits (maxIntegerValue : Nat) : Nat → Chars → Option Nat
  | value, [] => some value
  | value, c :: text =>
      if !c.isDigit then none
      else
        let threshold := maxIntegerValue / 10
        let digit := c.toNat - 48
        if threshold ≤ value ∧ (threshold < value ∨ text ≠ []
            ∨ maxIntegerValue % 10 < digit) then none
        else decodeDigits maxIntegerValue (value * 10 + digit) text

/-- The integer that a text is, if it is one of 64 bits. -/
def decodeInteger : Chars → Option Int
  | '-' :: text => (decodeDigits (2 ^ 63) 0 text).map fun n : Nat => -(n : Int)
  | text => (decodeDigits (2 ^ 64 - 1) 0 text).map Int.ofNat

/-- `decodeNumber` -/
def decodeNumber (extract : Chars → Option Float) (text : Chars) :
    Option Json :=
  match decodeInteger text with
  | some n => some (.int n)
  | none => (extract text).map .real

-- =============================================================== reading

/-- How a reading fails: `parse` returns false, or throws. -/
inductive Failure
  | invalid
  | stackLimit
deriving DecidableEq, Repr

/-- A token was decoded; what was read goes with the text behind it. -/
def decoded {α : Type} (x : Option α) (text : Chars) :
    Except Failure (α × Chars) :=
  match x with
  | some a => .ok (a, text)
  | none => .error .invalid

/-- `readArray`, from the first element: `fuel` elements at most, each read
by `value`. -/
def readItems (value : Chars → Except Failure (Json × Chars))
    (comments : Nat) :
    Nat → List Json → Chars → Except Failure (List Json × Chars)
  | 0, _, _ => .error .invalid
  | fuel + 1, items, text => do
      let (v, text) ← value text
      let (token, text) := skipCommentTokens comments text
      match token with
      | .arraySeparator => readItems value comments fuel (items ++ [v]) text
      | .arrayEnd => pure (items ++ [v], text)
      | _ => throw .invalid

/-- `readArray` -/
def readArray (value : Chars → Except Failure (Json × Chars)) (fuel : Nat)
    (text : Chars) : Except Failure (List Json × Chars) :=
  match skipSpaces text with
  | ']' :: text => pure ([], text)
  | text => readItems value fuel fuel [] text

/-- Is a token one that may stand behind a member? -/
def Token.endsMember : Token → Bool
  | .objectEnd | .arraySeparator | .comment => true
  | _ => false

/-- One member of an object from its colon on, and the token behind it.
Only the first token behind a member is looked at, comments are skipped
after that. -/
def readMember (value : Chars → Except Failure (Json × Chars))
    (comments : Nat) (text : Chars) :
    Except Failure (Json × Token × Chars) := do
  let (colon, text) := readToken text
  if colon ≠ .memberSeparator then throw .invalid
  let (v, text) ← value text
  let (comma, _) := readToken text
  if !comma.endsMember then throw .invalid
  pure (v, skipCommentTokens comments text)

/-- `readObject`: `fuel` members at most. The name is that of the member
before. -/
def readMembers (value : Chars → Except Failure (Json × Chars))
    (comments : Nat) :
    Nat → List (String × Json) → String → Chars →
      Except Failure (List (String × Json) × Chars)
  | 0, _, _, _ => .error .invalid
  | fuel + 1, fields, name, text => do
      let (tokenName, text) := skipCommentTokens comments text
      match tokenName with
      | .string s =>
          let (name, text) ← decoded (decodeString s) text
          let (v, comma, text) ← readMember value comments text
          let fields := assign name v fields
          if comma = .objectEnd then pure (fields, text)
          else readMembers value comments fuel fields name text
      | .objectEnd =>
          if name = "" then pure (fields, text) else throw .invalid
      | _ => throw .invalid

/-- The `switch` of `readValue`, with the reader of the values inside. -/
def valueFrom (extract : Chars → Option Float) (fuel : Nat)
    (value : Chars → Except Failure (Json × Chars)) (token : Token)
    (text : Chars) : Except Failure (Json × Chars) :=
  match token with
  | .objectBegin => do
      let (fields, text) ← readMembers value fuel fuel [] "" text
      pure (.obj fields, text)
  | .arrayBegin => do
      let (items, text) ← readArray value fuel text
      pure (.arr items, text)
  | .number s => decoded (decodeNumber extract s) text
  | .string s => decoded ((decodeString s).map .str) text
  | .true_ => pure (.bool true, text)
  | .false_ => pure (.bool false, text)
  | .null => pure (.null, text)
  | _ => throw .invalid

/-- `readValue`, where `limit` more values can be nested. -/
def readValue (extract : Chars → Option Float) (fuel : Nat) :
    Nat → Chars → Except Failure (Json × Chars)
  | 0, _ => .error .stackLimit
  | limit + 1, text =>
      let (token, text) := skipCommentTokens fuel text
      valueFrom extract fuel (readValue extract fuel limit) token text

def stackLimit : Nat := 1000

/-- `Reader::parse`. No loop can take more turns than there are characters
in the text, and one more. -/
def parse (extract : Chars → Option Float) (document : Chars) :
    Except Failure Json :=
  (readValue extract (document.length + 1) stackLimit document).map Prod.fst

end Reader

end Json

end BigDataExpress

/-
The line protocol of InfluxDB, without times: a point is a line.

    measurement[,tag=value...] field=value[,field=value...]

In keys and tag values a backslash escapes a comma, an equals sign and a
space, in the measurement a comma and a space. A field's value is a
string in quotes, where it escapes a quote and itself, a Boolean, or a
number. Nothing is empty but the list of tags, and strings.

`Line` is the grammar and `parseLine` the parser. The two agree
(`parseLine_eq_some`), so a line is read as one point or not at all.
-/
import BigDataExpress.Lib.Escape
import Mathlib.Algebra.Ring.Int.Defs

namespace LineProtocol

open Text

-- ================================================================ points

/-- The value of a field. -/
inductive Value
  | str (s : Chars)
  | bool (b : Bool)
  | int (n : Int)
deriving DecidableEq, Repr

structure Point where
  measurement : Chars
  tags : List (Chars × Chars)
  fields : List (Chars × Value)
deriving DecidableEq, Repr

-- =============================================================== grammar

/-- Of the measurement. -/
def names : Delimiters where
  ends c := c == ',' || c == ' '
  escapes c := c == ',' || c == ' '
  escapes_of_ends _ h := h
  ends_backslash := rfl

/-- Of keys and tag values. -/
def keys : Delimiters where
  ends c := c == ',' || c == '=' || c == ' '
  escapes c := c == ',' || c == '=' || c == ' '
  escapes_of_ends _ h := h
  ends_backslash := rfl

/-- Of strings. -/
def quotes : Delimiters where
  ends c := c == '\x22'
  escapes c := c == '\x22' || c == '\\'
  escapes_of_ends _ h := by
    rw [h]
    rfl
  ends_backslash := rfl

/-- Digits, as a number. -/
def readDigits (word : Chars) : Option Nat :=
  if word ≠ [] ∧ word.all Char.isDigit = true then
    some (Nat.ofDigitChars 10 word 0)
  else none

def readNumber : Chars → Option Value
  | '-' :: word => (readDigits word).map fun n : Nat => .int (-n)
  | word => (readDigits word).map fun n : Nat => .int n

def trueWords : List Chars :=
  ["t", "T", "true", "True", "TRUE"].map String.toList

def falseWords : List Chars :=
  ["f", "F", "false", "False", "FALSE"].map String.toList

/-- A value without quotes. -/
def readWord (word : Chars) : Option Value :=
  if word ∈ trueWords then some (.bool true)
  else if word ∈ falseWords then some (.bool false)
  else readNumber word

/-- A value as it is written. -/
inductive Literal : Chars → Value → Prop
  | str {raw s : Chars} (h : quotes.Escaped raw s) :
      Literal ('\x22' :: raw ++ ['\x22']) (.str s)
  | word {w : Chars} {v : Value} (h : readWord w = some v) : Literal w v

/-- A tag as it is written. -/
inductive TagText : Chars → Chars × Chars → Prop
  | mk {key k value v : Chars} (hkey : keys.Escaped key k) (hk : k ≠ [])
      (hvalue : keys.Escaped value v) (hv : v ≠ []) :
      TagText (key ++ '=' :: value) (k, v)

/-- A field as it is written. -/
inductive FieldText : Chars → Chars × Value → Prop
  | mk {key k value : Chars} {v : Value} (hkey : keys.Escaped key k)
      (hk : k ≠ []) (hvalue : Literal value v) :
      FieldText (key ++ '=' :: value) (k, v)

/-- A comma and an element, for each of a list. -/
inductive Elements {α : Type} (R : Chars → α → Prop) : Chars → List α → Prop
  | nil : Elements R [] []
  | cons {raw rest : Chars} {x : α} {xs : List α} (h : R raw x)
      (hrest : Elements R rest xs) : Elements R (',' :: raw ++ rest) (x :: xs)

/-- A point as it is written. -/
inductive Line : Chars → Point → Prop
  | mk {name measurement tagText first fieldText : Chars}
      {tags : List (Chars × Chars)} {field : Chars × Value}
      {fields : List (Chars × Value)}
      (hname : names.Escaped name measurement) (hne : measurement ≠ [])
      (htags : Elements TagText tagText tags) (hfirst : FieldText first field)
      (hfields : Elements FieldText fieldText fields) :
      Line (name ++ tagText ++ ' ' :: (first ++ fieldText))
        ⟨measurement, tags, field :: fields⟩

-- ================================================================ parser

/-- A key and the equals sign, and what follows. -/
def readKey (text : Chars) : Option (Chars × Chars) :=
  match keys.scan text with
  | some (k, c, rest) => if k ≠ [] ∧ c = '=' then some (k, rest) else none
  | none => none

/-- The value of a field, and what follows. -/
def readValue : Chars → Option (Value × Chars)
  | '\x22' :: text => (quotes.scan text).map fun r => (.str r.1, r.2.2)
  | text =>
      (readWord (text.takeWhile (· ≠ ','))).map fun v =>
        (v, text.dropWhile (· ≠ ','))

/-- The tags, after the character `c`, up to the space that ends them. -/
def readTags : Nat → Char → Chars → Option (List (Chars × Chars) × Chars)
  | 0, c, text => if c = ' ' then some ([], text) else none
  | n + 1, c, text =>
      if c = ' ' then some ([], text)
      else if c = ',' then do
        let (k, text) ← readKey text
        let (v, c, text) ← keys.scan text
        if v = [] then none
        else
          let (tags, text) ← readTags n c text
          some ((k, v) :: tags, text)
      else none

/-- The fields up to the end. -/
def readFields : Nat → Chars → Option (List (Chars × Value))
  | 0, _ => none
  | n + 1, text => do
      let (k, text) ← readKey text
      let (v, text) ← readValue text
      match text with
      | [] => some [(k, v)]
      | c :: text =>
          if c = ',' then
            let fields ← readFields n text
            some ((k, v) :: fields)
          else none

/-- Tags and fields are shorter than the text, so there is enough fuel. -/
def parseLine (text : Chars) : Option Point := do
  let (measurement, c, text) ← names.scan text
  if measurement = [] then none
  else
    let (tags, text) ← readTags text.length c text
    let fields ← readFields text.length text
    some ⟨measurement, tags, fields⟩

/-- A text of points. -/
def parse (text : Chars) : Option (List Point) :=
  (getlines text).mapM parseLine

-- ====================================================== keys and values

section values

variable {text rest raw k : Chars} {v : Value} {c : Char}

theorem readKey_eq_some :
    readKey text = some (k, rest)
      ↔ ∃ key, keys.Escaped key k ∧ k ≠ [] ∧ text = key ++ '=' :: rest := by
  unfold readKey
  constructor
  · intro h
    split at h
    · rename_i k' c rest' hscan
      split at h
      · rename_i hkc
        obtain ⟨hk, rfl⟩ := hkc
        injection h with h
        injection h with hkk hrest
        subst hkk hrest
        obtain ⟨_, key, hkey, rfl⟩ := Delimiters.scan_eq_some.1 hscan
        exact ⟨key, hkey, hk, rfl⟩
      · cases h
    · cases h
  · rintro ⟨key, hkey, hk, rfl⟩
    rw [hkey.scan rfl]
    exact if_pos ⟨hk, rfl⟩

theorem readDigits_eq_some {n : Nat} (h : readDigits raw = some n) :
    raw ≠ [] ∧ ∀ c ∈ raw, c.isDigit = true := by
  unfold readDigits at h
  split at h
  · rename_i hdigits
    exact ⟨hdigits.1, List.all_eq_true.1 hdigits.2⟩
  · cases h

theorem readWord_ne_str {s : Chars} : readWord raw ≠ some (.str s) := by
  unfold readWord readNumber
  intro h
  split at h
  · cases h
  · split at h
    · cases h
    · split at h
      · obtain ⟨n, _, heq⟩ := Option.map_eq_some_iff.1 h
        cases heq
      · obtain ⟨n, _, heq⟩ := Option.map_eq_some_iff.1 h
        cases heq

theorem bool_letters {w : Chars} (h : w ∈ trueWords ∨ w ∈ falseWords) :
    w ≠ [] ∧ ∀ c ∈ w, c.isAlpha = true ∧ c.isDigit = false := by
  have hall : (trueWords ++ falseWords).all (fun w => !w.isEmpty
      && w.all fun c => c.isAlpha && !c.isDigit) = true := by
    decide +kernel
  have hw := List.all_eq_true.1 hall w (List.mem_append.2 h)
  rw [Bool.and_eq_true] at hw
  refine ⟨by simpa using hw.1, ?_⟩
  intro c hc
  simpa using List.all_eq_true.1 hw.2 c hc

/-- No character of a word has a meaning in a line. -/
theorem readWord_chars (h : readWord raw = some v) :
    raw ≠ [] ∧ ∀ c ∈ raw, c.isAlphanum = true ∨ c = '-' := by
  have hbool (hw : raw ∈ trueWords ∨ raw ∈ falseWords) :
      raw ≠ [] ∧ ∀ c ∈ raw, c.isAlphanum = true ∨ c = '-' := by
    obtain ⟨hne, hall⟩ := bool_letters hw
    refine ⟨hne, fun c hc => .inl ?_⟩
    unfold Char.isAlphanum
    rw [(hall c hc).1, Bool.true_or]
  have hdigit {word : Chars} (hw : ∀ c ∈ word, c.isDigit = true) :
      ∀ c ∈ word, c.isAlphanum = true ∨ c = '-' := by
    intro c hc
    refine .inl ?_
    unfold Char.isAlphanum
    rw [hw c hc, Bool.or_true]
  unfold readWord at h
  split at h
  · rename_i hmem
    exact hbool (.inl hmem)
  · split at h
    · rename_i hmem
      exact hbool (.inr hmem)
    · unfold readNumber at h
      split at h
      · rename_i word _ _
        obtain ⟨n, hn, _⟩ := Option.map_eq_some_iff.1 h
        refine ⟨by simp, ?_⟩
        intro c hc
        obtain rfl | hc := List.mem_cons.1 hc
        · exact .inr rfl
        · exact hdigit (readDigits_eq_some hn).2 c hc
      · obtain ⟨n, hn, _⟩ := Option.map_eq_some_iff.1 h
        obtain ⟨hne, hall⟩ := readDigits_eq_some hn
        exact ⟨hne, hdigit hall⟩

/-- A word that begins like a number is no Boolean. -/
theorem readWord_number (hc : c.isDigit = true ∨ c = '-') :
    readWord (c :: raw) = readNumber (c :: raw) := by
  have hno : ¬ (c :: raw ∈ trueWords ∨ c :: raw ∈ falseWords) := by
    intro hw
    obtain ⟨halpha, hdigit⟩ := (bool_letters hw).2 c (List.mem_cons_self ..)
    rcases hc with hc | rfl
    · rw [hdigit] at hc
      cases hc
    · cases halpha
  unfold readWord
  rw [if_neg fun h => hno (.inl h), if_neg fun h => hno (.inr h)]

theorem readDigits_toDigits (n : Nat) :
    readDigits (Nat.toDigits 10 n) = some n := by
  have hall : (Nat.toDigits 10 n).all Char.isDigit = true := by
    rw [List.all_eq_true]
    exact fun c hc => Nat.isDigit_of_mem_toDigits (by decide) (by decide) hc
  unfold readDigits
  rw [if_pos ⟨Nat.toDigits_ne_nil, hall⟩, Nat.ofDigitChars_ten_toDigits]

/-- Numbers that are written in decimal are read. -/
theorem readWord_toDigits (n : Nat) :
    readWord (Nat.toDigits 10 n) = some (.int n) := by
  have hread := readDigits_toDigits n
  have hall := (readDigits_eq_some hread).2
  obtain ⟨c, raw, hraw⟩ :=
    List.exists_cons_of_ne_nil (Nat.toDigits_ne_nil (n := n) (b := 10))
  rw [hraw] at hread hall ⊢
  have hc := hall c (List.mem_cons_self ..)
  rw [readWord_number (.inl hc)]
  unfold readNumber
  split
  · rename_i heq
    injection heq with heq _
    subst heq
    cases hc
  · rw [hread]
    rfl

theorem readWord_minus (n : Nat) :
    readWord ('-' :: Nat.toDigits 10 n) = some (.int (-n)) := by
  rw [readWord_number (.inr rfl), readNumber, readDigits_toDigits]
  rfl

theorem not_mem_word (h : readWord raw = some v) (hc : c.isAlphanum = false)
    (hne : c ≠ '-') : c ∉ raw := by
  intro hmem
  rcases (readWord_chars h).2 c hmem with halnum | hminus
  · rw [hc] at halnum
    cases halnum
  · exact hne hminus

theorem readValue_word (h : text.head? ≠ some '\x22') :
    readValue text = (readWord (text.takeWhile (· ≠ ','))).map fun v =>
      (v, text.dropWhile (· ≠ ',')) := by
  unfold readValue
  split
  · exact absurd rfl h
  · rfl

/-- What can follow a value. -/
def Follows (rest : Chars) : Prop := ∀ c, rest.head? = some c → c = ','

theorem Literal.readValue (h : Literal raw v) (hrest : Follows rest) :
    readValue (raw ++ rest) = some (v, rest) := by
  cases h with
  | @str raw s h =>
      show LineProtocol.readValue ('\x22' :: ((raw ++ ['\x22']) ++ rest)) = _
      rw [LineProtocol.readValue, List.append_assoc, List.singleton_append,
        h.scan rfl]
      rfl
  | word h =>
      obtain ⟨hne, _⟩ := readWord_chars h
      have hcomma : ∀ c ∈ raw, decide (c ≠ ',') = true := by
        intro c hc
        apply decide_eq_true
        rintro rfl
        exact not_mem_word h rfl (by decide) hc
      have hends : rest.takeWhile (· ≠ ',') = []
          ∧ rest.dropWhile (· ≠ ',') = rest := by
        cases rest with
        | nil => exact ⟨rfl, rfl⟩
        | cons c rest =>
            rw [hrest c rfl]
            exact ⟨rfl, rfl⟩
      have hhead : (raw ++ rest).head? ≠ some '\x22' := by
        obtain ⟨c, raw, rfl⟩ := List.exists_cons_of_ne_nil hne
        intro hc
        injection hc with hc
        refine not_mem_word h (c := '\x22') rfl (by decide) ?_
        rw [← hc]
        exact List.mem_cons_self ..
      rw [readValue_word hhead, List.takeWhile_append_of_pos hcomma,
        List.dropWhile_append_of_pos hcomma, hends.1, hends.2,
        List.append_nil, h]
      rfl

theorem exists_of_readValue (h : readValue text = some (v, rest)) :
    ∃ raw, Literal raw v ∧ text = raw ++ rest := by
  unfold readValue at h
  split at h
  · obtain ⟨⟨s, c, r⟩, hscan, heq⟩ := Option.map_eq_some_iff.1 h
    injection heq with hv hrest
    subst hv hrest
    obtain ⟨hc, raw, hraw, rfl⟩ := Delimiters.scan_eq_some.1 hscan
    have hc : c = '\x22' := by simpa [quotes] using hc
    subst hc
    refine ⟨_, .str hraw, ?_⟩
    simp
  · obtain ⟨v', hword, heq⟩ := Option.map_eq_some_iff.1 h
    injection heq with hv hrest
    subst hv hrest
    exact ⟨_, .word hword, List.takeWhile_append_dropWhile.symm⟩

end values

-- ======================================================= tags and fields

section lists

variable {text rest : Chars} {c : Char} {n : Nat}
  {tags : List (Chars × Chars)} {fields : List (Chars × Value)}

/-- The last element of a list. -/
theorem Elements.exists_last {α : Type} {R : Chars → α → Prop} {xs : List α}
    {x : α} (h : Elements R text (xs ++ [x])) :
    ∃ front raw, Elements R front xs ∧ R raw x ∧ text = front ++ ',' :: raw := by
  induction xs generalizing text with
  | nil =>
      cases h with
      | cons hx hrest =>
          cases hrest
          exact ⟨[], _, .nil, hx, by simp⟩
  | cons y xs ih =>
      cases h with
      | cons hy hrest =>
          obtain ⟨front, raw, hfront, hx, rfl⟩ := ih hrest
          exact ⟨_, raw, .cons hy hfront, hx, by simp⟩

theorem Elements.head {α : Type} {R : Chars → α → Prop} {xs : List α}
    (h : Elements R text xs) : Follows text := by
  intro c hc
  cases h with
  | nil => cases hc
  | cons _ _ =>
      injection hc with hc
      exact hc.symm

/-- There are no more elements than characters. -/
theorem Elements.length_le {α : Type} {R : Chars → α → Prop} {xs : List α}
    (h : Elements R text xs) : xs.length ≤ text.length := by
  induction h with
  | nil => exact Nat.le_refl 0
  | cons _ _ ih =>
      rw [List.cons_append, List.length_cons, List.length_cons,
        List.length_append]
      omega

theorem readTags_space : readTags n ' ' text = some ([], text) := by
  cases n <;> rfl

theorem Elements.readTags (h : Elements TagText text tags) (hn : tags.length ≤ n)
    {t : Chars} (ht : c :: t = text ++ ' ' :: rest) :
    readTags n c t = some (tags, rest) := by
  induction h generalizing n c t with
  | nil =>
      injection ht with hc ht
      subst hc ht
      exact readTags_space
  | @cons raw text x tags hx htags ih =>
      cases hx with
      | @mk key k value v hkey hk hvalue hv =>
          obtain ⟨n, rfl⟩ : ∃ m, n = m + 1 := by
            rw [List.length_cons] at hn
            exact ⟨n - 1, by omega⟩
          rw [List.cons_append, List.cons_append] at ht
          injection ht with hc ht
          subst hc ht
          have hread : readKey (key ++ '=' :: value ++ text ++ ' ' :: rest)
              = some (k, value ++ (text ++ ' ' :: rest)) :=
            readKey_eq_some.2 ⟨key, hkey, hk, by simp⟩
          -- a comma, or the space at the end, comes after the value
          obtain ⟨c, t, hct, hend⟩ :
              ∃ c t, text ++ ' ' :: rest = c :: t ∧ keys.ends c = true := by
            cases htags with
            | nil => exact ⟨' ', rest, rfl, rfl⟩
            | cons _ _ => exact ⟨',', _, rfl, rfl⟩
          have hlater := ih (by simpa using hn) hct.symm
          rw [LineProtocol.readTags, if_neg (by decide), if_pos rfl]
          simp only [hread, hct, hvalue.scan hend, hlater, if_neg hv,
            Option.bind_eq_bind, Option.bind_some]

theorem exists_of_readTags (h : readTags n c text = some (tags, rest)) :
    ∃ tagText, Elements TagText tagText tags ∧ c :: text = tagText ++ ' ' :: rest := by
  induction n generalizing c text tags with
  | zero =>
      rw [readTags] at h
      split at h
      · rename_i hc
        injection h with h
        injection h with htags hrest
        subst hc htags hrest
        exact ⟨[], .nil, rfl⟩
      · cases h
  | succ n ih =>
      rw [readTags] at h
      split at h
      · rename_i hc
        injection h with h
        injection h with htags hrest
        subst hc htags hrest
        exact ⟨[], .nil, rfl⟩
      · split at h
        · rename_i hc
          subst hc
          obtain ⟨⟨k, t⟩, hread, h⟩ := Option.bind_eq_some_iff.1 h
          obtain ⟨⟨v, c', t'⟩, hscan, h⟩ := Option.bind_eq_some_iff.1 h
          dsimp only at hscan h
          split at h
          · cases h
          · rename_i hv
            obtain ⟨⟨tags', r⟩, htags, h⟩ := Option.bind_eq_some_iff.1 h
            injection h with h
            injection h with heq hrest
            subst heq hrest
            obtain ⟨tagText, hlisted, htext⟩ := ih htags
            obtain ⟨key, hkey, hk, rfl⟩ := readKey_eq_some.1 hread
            obtain ⟨_, value, hvalue, rfl⟩ := Delimiters.scan_eq_some.1 hscan
            refine ⟨_, .cons (.mk hkey hk hvalue hv) hlisted, ?_⟩
            rw [htext]
            simp
        · cases h

theorem FieldText.readFields {first : Chars} {field : Chars × Value}
    (hfirst : FieldText first field) (h : Elements FieldText text fields)
    (hn : fields.length < n) :
    readFields n (first ++ text) = some (field :: fields) := by
  induction h generalizing n first field with
  | nil =>
      cases hfirst with
      | @mk key k value v hkey hk hvalue =>
          obtain ⟨n, rfl⟩ : ∃ m, n = m + 1 := ⟨n - 1, by omega⟩
          have hread : readKey (key ++ '=' :: value ++ []) = some (k, value ++ []) :=
            readKey_eq_some.2 ⟨key, hkey, hk, by simp⟩
          have hends : Follows [] := by
            intro c hc
            cases hc
          simp only [LineProtocol.readFields, hread, hvalue.readValue hends,
            Option.bind_eq_bind, Option.bind_some]
  | @cons raw text x fields hx hfields ih =>
      cases hfirst with
      | @mk key k value v hkey hk hvalue =>
          obtain ⟨n, rfl⟩ : ∃ m, n = m + 1 := ⟨n - 1, by omega⟩
          have hread : readKey (key ++ '=' :: value ++ (',' :: raw ++ text))
              = some (k, value ++ ',' :: (raw ++ text)) :=
            readKey_eq_some.2 ⟨key, hkey, hk, by simp⟩
          have hends : Follows (',' :: (raw ++ text)) := by
            intro c hc
            injection hc with hc
            exact hc.symm
          have hlater := ih hx (n := n) (by simpa using hn)
          simp only [LineProtocol.readFields, hread, hvalue.readValue hends,
            hlater, if_pos, Option.bind_eq_bind, Option.bind_some]

theorem FieldText.length_pos {first : Chars} {field : Chars × Value}
    (h : FieldText first field) : 0 < first.length := by
  cases h
  rw [List.length_append, List.length_cons]
  omega

theorem exists_of_readFields (h : readFields n text = some fields) :
    ∃ first field fieldText later, FieldText first field
      ∧ Elements FieldText fieldText later ∧ text = first ++ fieldText
      ∧ fields = field :: later := by
  induction n generalizing text fields with
  | zero => cases h
  | succ n ih =>
      obtain ⟨⟨k, t⟩, hread, hk⟩ := Option.bind_eq_some_iff.1 h
      obtain ⟨⟨v, t'⟩, hvalue, hv⟩ := Option.bind_eq_some_iff.1 hk
      obtain ⟨key, hkey, hne, rfl⟩ := readKey_eq_some.1 hread
      obtain ⟨value, hliteral, rfl⟩ := exists_of_readValue hvalue
      have hfirst := FieldText.mk hkey hne hliteral
      cases t' with
      | nil =>
          injection hv with hv
          exact ⟨_, _, [], [], hfirst, .nil, by simp, hv.symm⟩
      | cons c t' =>
          dsimp only at hv
          split at hv
          · rename_i hc
            subst hc
            obtain ⟨fields', hfields, heq⟩ := Option.bind_eq_some_iff.1 hv
            injection heq with heq
            obtain ⟨second, field, fieldText, later, hsecond, hlater, rfl, rfl⟩ :=
              ih hfields
            exact ⟨_, _, _, _, hfirst, .cons hsecond hlater, by simp, heq.symm⟩
          · cases hv

end lists

-- ================================================================ points

/-- The parser reads what the grammar has, and nothing else. -/
theorem parseLine_eq_some {text : Chars} {p : Point} :
    parseLine text = some p ↔ Line text p := by
  constructor
  · intro h
    obtain ⟨⟨m, c, t⟩, hscan, h⟩ := Option.bind_eq_some_iff.1 h
    dsimp only at h
    split at h
    · cases h
    · rename_i hne
      obtain ⟨⟨tags, t'⟩, htags, h⟩ := Option.bind_eq_some_iff.1 h
      obtain ⟨fields, hfields, h⟩ := Option.bind_eq_some_iff.1 h
      injection h with h
      subst h
      obtain ⟨_, name, hname, rfl⟩ := Delimiters.scan_eq_some.1 hscan
      obtain ⟨tagText, hlisted, htext⟩ := exists_of_readTags htags
      obtain ⟨first, field, fieldText, later, hfirst, hlater, rfl, rfl⟩ :=
        exists_of_readFields hfields
      rw [htext, ← List.append_assoc]
      exact .mk hname hne hlisted hfirst hlater
  · rintro ⟨hname, hne, htags, hfirst, hfields⟩
    rename_i name measurement tagText first fieldText tags field fields
    obtain ⟨c, t, hct, hend⟩ : ∃ c t,
        tagText ++ ' ' :: (first ++ fieldText) = c :: t
          ∧ names.ends c = true := by
      cases htags with
      | nil => exact ⟨' ', _, rfl, rfl⟩
      | cons _ _ => exact ⟨',', _, rfl, rfl⟩
    have hlen := congrArg List.length hct
    have htagsLen := htags.length_le
    have hfieldsLen := hfields.length_le
    simp only [List.length_append, List.length_cons] at hlen
    have hreadTags := htags.readTags (n := t.length) (by omega) hct.symm
    have hreadFields := hfirst.readFields hfields
      (n := (first ++ fieldText).length) (by
        have hpos := hfirst.length_pos
        rw [List.length_append]
        omega)
    unfold parseLine
    rw [List.append_assoc, hct]
    simp only [hname.scan hend, if_neg hne, hreadTags, hreadFields,
      Option.bind_eq_bind, Option.bind_some]

/-- A text that does not end in a newline is one point if it is a line. -/
theorem parse_single (text : Chars) {p : Point} (hne : text ≠ [])
    (hlast : text.getLast? ≠ some '\n') :
    parse text = some [p] ↔ '\n' ∉ text ∧ Line text p := by
  constructor
  · intro h
    unfold parse at h
    have hlines : ∃ l, getlines text = [l] := by
      cases hl : getlines text with
      | nil =>
          rw [hl] at h
          cases h
      | cons l ls =>
          rw [hl, List.mapM_cons] at h
          obtain ⟨q, _, h⟩ := Option.bind_eq_some_iff.1 h
          obtain ⟨qs, hqs, h⟩ := Option.bind_eq_some_iff.1 h
          injection h with h
          injection h with _ hnil
          subst hnil
          cases ls with
          | nil => exact ⟨l, rfl⟩
          | cons k ls =>
              rw [List.mapM_cons] at hqs
              obtain ⟨_, _, hqs⟩ := Option.bind_eq_some_iff.1 hqs
              obtain ⟨_, _, hqs⟩ := Option.bind_eq_some_iff.1 hqs
              cases hqs
    obtain ⟨l, hl⟩ := hlines
    have htext := eq_of_getlines hl hlast
    subst htext
    have hfree : '\n' ∉ text :=
      newline_not_mem (hl ▸ List.mem_singleton_self text)
    rw [hl, List.mapM_cons] at h
    obtain ⟨q, hq, h⟩ := Option.bind_eq_some_iff.1 h
    injection h with h
    injection h with hqp _
    exact ⟨hfree, parseLine_eq_some.1 (hqp ▸ hq)⟩
  · rintro ⟨hfree, h⟩
    unfold parse
    rw [getlines_single hfree hne, List.mapM_cons, parseLine_eq_some.2 h]
    rfl

end LineProtocol

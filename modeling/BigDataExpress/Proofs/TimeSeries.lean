/-
Is a posted line read as what was inserted?

Names and values of tags, and the name of the first field, are escaped,
and of them only backslashes at an end and white space other than the
space are lost. Nothing else is escaped: later names of fields and strings
must be of characters without a meaning, and a measurement must have its
own backslashes. If the first field has no name, the line has no field
that can be read (`Insertable`).

That this is sufficient is shown from the front, part by part. It is also
necessary (`insert_decodes_iff`): the line that was written and the parts
that were read are compared from the end, a value, then its key, then the
field before it (`align_later`), the first field, the tags
(`align_tags`), and the measurement is what is left.
-/
import BigDataExpress.Lib.LineProtocol
import BigDataExpress.Utils.TimeSeries

namespace BigDataExpress

open Text LineProtocol
open GridMapfile (isspace quote quotingChar)

-- ================================================================ values

/-- The value that a field should have for its reader. -/
def FieldValue.value : FieldValue → Value
  | .bool v => .bool v
  | .string v => .str v
  | .number v => .int v

/-- A string of characters without a meaning between quotes. -/
def Quotable (s : Chars) : Prop :=
  '\x22' ∉ s ∧ '\n' ∉ s ∧ ¬ ['\\', '\\'] <:+: s ∧ s.getLast? ≠ some '\\'

/-- A value that is no text, or a text that can stand between quotes. -/
def FieldValue.Quotable : FieldValue → Prop
  | .string v => BigDataExpress.Quotable v
  | _ => True

/-- An integer is read back. -/
theorem readWord_toDecimal (n : Int) :
    readWord (toDecimal n) = some (.int n) := by
  cases n with
  | ofNat n => exact readWord_toDigits n
  | negSucc n => exact readWord_minus (n + 1)

/-- Between quotes a text is itself if it has no quote, no two backslashes in
a row and none at its end. -/
theorem escaped_quotes {s : Chars} :
    quotes.Escaped s s ↔ '\x22' ∉ s ∧ ¬ ['\\', '\\'] <:+: s
      ∧ s.getLast? ≠ some '\\' := by
  have hends {c : Char} : quotes.ends c = false ↔ c ≠ '\x22' := by
    simp [quotes]
  rw [Delimiters.escaped_self, Delimiters.literally_iff]
  constructor
  · rintro ⟨hall, hpair, hlast⟩
    exact ⟨fun hmem => hends.1 (hall _ hmem) rfl, hpair '\\' rfl, hlast⟩
  · rintro ⟨hquote, hpair, hlast⟩
    refine ⟨fun c hc => hends.2 fun heq => hquote (heq ▸ hc), ?_, hlast⟩
    intro c hc hin
    have hc : c = '\x22' ∨ c = '\\' := by simpa [quotes] using hc
    rcases hc with rfl | rfl
    · exact hquote (hin.subset (by simp))
    · exact hpair hin

/-- A name that is written as it is. -/
theorem escaped_keys {s : Chars} :
    keys.Escaped s s ↔ (∀ c ∈ s, c ≠ ',' ∧ c ≠ '=' ∧ c ≠ ' ')
      ∧ s.getLast? ≠ some '\\' := by
  have hends {c : Char} :
      keys.ends c = false ↔ c ≠ ',' ∧ c ≠ '=' ∧ c ≠ ' ' := by
    simp [keys, and_assoc]
  simp only [Delimiters.escaped_self, Delimiters.literally_iff, hends]
  constructor
  · rintro ⟨hall, _, hlast⟩
    exact ⟨hall, hlast⟩
  · rintro ⟨hall, hlast⟩
    refine ⟨hall, ?_, hlast⟩
    intro c hc hin
    have hc' : keys.ends c = true := hc
    rw [hends.2 (hall c (hin.subset (by simp)))] at hc'
    cases hc'

/-- When a value is read as it was given. -/
theorem literal_format {v : FieldValue} :
    Literal (format v) v.value ∧ '\n' ∉ format v ↔ v.Quotable := by
  have hword {w : Chars} {x : Value} (h : readWord w = some x) :
      Literal w x ∧ '\n' ∉ w :=
    ⟨.word h, not_mem_word h rfl (by decide)⟩
  cases v with
  | bool b =>
      refine iff_of_true (hword ?_) trivial
      cases b <;> decide +kernel
  | number n => exact iff_of_true (hword (readWord_toDecimal n)) trivial
  | string s =>
      have hlit : Literal (quote s) (.str s) ↔ quotes.Escaped s s := by
        constructor
        · intro h
          generalize hq : quote s = q at h
          cases h with
          | str h =>
              have hraw := List.append_cancel_right hq
              injection hraw with _ hraw
              have hraw : s = _ := hraw
              exact hraw ▸ h
          | word h =>
              subst hq
              exact absurd (List.mem_cons_self ..)
                (not_mem_word h (c := '\x22') rfl (by decide))
        · exact .str
      have hline : '\n' ∉ quote s ↔ '\n' ∉ s := by
        simp [quote, quotingChar]
      show Literal (quote s) (.str s) ∧ '\n' ∉ quote s ↔ _
      rw [hlit, hline, escaped_quotes]
      constructor
      · rintro ⟨⟨hquote, hpair, hlast⟩, hfree⟩
        exact ⟨hquote, hfree, hpair, hlast⟩
      · rintro ⟨hquote, hfree, hpair, hlast⟩
        exact ⟨⟨hquote, hpair, hlast⟩, hfree⟩

/-- Every value is written as something. -/
theorem format_ne_nil (v : FieldValue) : format v ≠ [] := by
  cases v with
  | bool b => cases b <;> decide +kernel
  | string s => exact List.cons_ne_nil quotingChar (s ++ [quotingChar])
  | number n => exact (readWord_chars (readWord_toDecimal n)).1

section last

variable {c : Char} (hc : c = '\\' ∨ c = '\n')

include hc

/-- No value ends in a backslash or a newline. -/
theorem getLast_format (v : FieldValue) : (format v).getLast? ≠ some c := by
  have hword {w : Chars} {u : Value} (hw : readWord w = some u) :
      w.getLast? ≠ some c := by
    intro h
    refine not_mem_word hw ?_ ?_ (List.mem_of_getLast? h)
    · rcases hc with rfl | rfl <;> rfl
    · rcases hc with rfl | rfl <;> decide
  cases v with
  | bool b =>
      refine hword (u := .bool b) ?_
      cases b <;> decide +kernel
  | string s =>
      intro h
      have hlast : (quote s).getLast? = some '\x22' := List.getLast?_concat
      have heq : some '\x22' = some c := hlast.symm.trans h
      injection heq with heq
      rcases hc with rfl | rfl <;> cases heq
  | number n => exact hword (readWord_toDecimal n)

/-- A written field ends neither in a backslash nor in a newline. -/
theorem getLast_field (x : Chars) (v : FieldValue) :
    (x ++ '=' :: format v).getLast? ≠ some c := by
  have htext : x ++ '=' :: format v = (x ++ ['=']) ++ format v := by simp
  rw [htext, List.getLast?_append_of_ne_nil _ (format_ne_nil v)]
  exact getLast_format hc v

end last

/-- Two ways to cut a text at a word are one. -/
theorem align_word {x y raw w : Chars} {v : Value}
    (h : x ++ '=' :: w = y ++ '=' :: raw) (hw : readWord w = some v)
    (hraw : readWord raw = some v) : x = y ∧ w = raw :=
  Delimiters.align_free h (not_mem_word hw rfl (by decide))
    (not_mem_word hraw rfl (by decide))

/-- What follows the last equals sign is the value. -/
theorem align_value {x y raw : Chars} {v : FieldValue}
    (h : x ++ '=' :: format v = y ++ '=' :: raw) (hraw : Literal raw v.value) :
    x = y ∧ format v = raw := by
  cases v with
  | bool b =>
      cases hraw with
      | word hraw =>
          refine align_word h ?_ hraw
          cases b <;> decide +kernel
  | number n =>
      cases hraw with
      | word hraw => exact align_word h (readWord_toDecimal n) hraw
  | string s =>
      cases hraw with
      | word hraw => exact absurd hraw readWord_ne_str
      | @str raw _ hraw =>
          have hopen : (x ++ ['=']) ++ '\x22' :: s
              = (y ++ ['=']) ++ '\x22' :: raw := by
            refine List.append_cancel_right (?_ : _ ++ ['\x22'] = _)
            simpa [format, quote, quotingChar] using h
          -- the opening quote is not one of the string
          obtain ⟨hxy, _, hs⟩ := Delimiters.align_plain hopen hraw rfl (by simp)
          exact ⟨List.append_cancel_right hxy, by rw [← hs]; rfl⟩

-- ================================================================= names

/-- What is escaped. -/
def special (c : Char) : Bool := decide (c = ',' ∨ c = '=' ∨ isspace c = true)

/-- Escaping puts a backslash before each special character. -/
theorem escape_eq (s : Chars) : escape s = Delimiters.escaping special s := by
  unfold escape Delimiters.escaping special
  simp only [decide_eq_true_eq]

/-- A text that survives being escaped. -/
def Escapable (s : Chars) : Prop :=
  (∀ c ∈ s, isspace c = true → c = ' ') ∧ s.getLast? ≠ some '\\'

/-- What a backslash escapes in a key is special. -/
theorem keys_special {c : Char} (h : keys.escapes c = true) :
    special c = true := by
  have hc : (c = ',' ∨ c = '=') ∨ c = ' ' := by simpa [keys] using h
  rcases hc with (rfl | rfl) | rfl <;> rfl

/-- An escaped text is read back if it can be. -/
theorem escaped_escape {s : Chars} : keys.Escaped (escape s) s ↔ Escapable s := by
  rw [escape_eq, Delimiters.escaped_escaping (fun _ h => h)
    (fun _ h => keys_special h) rfl]
  unfold Escapable
  have hchar (c : Char) : (special c = true → keys.escapes c = true)
      ↔ (isspace c = true → c = ' ') := by
    simp only [special, keys, decide_eq_true_eq, Bool.or_eq_true, beq_iff_eq]
    constructor
    · intro h hspace
      rcases h (.inr (.inr hspace)) with (rfl | rfl) | rfl
      · cases hspace
      · cases hspace
      · rfl
    · rintro h (rfl | rfl | hspace)
      · exact .inl (.inl rfl)
      · exact .inl (.inr rfl)
      · exact .inr (h hspace)
  simp only [hchar]

/-- Two ways to cut a text at an escaped one are one. -/
theorem align_escape {x y raw s : Chars} {c : Char}
    (h : x ++ c :: escape s = y ++ c :: raw) (hraw : keys.Escaped raw s)
    (hc : special c = true) (hy : y.getLast? ≠ some '\\') :
    x = y ∧ escape s = raw := by
  rw [escape_eq] at h ⊢
  exact Delimiters.align_escaping (fun _ h => keys_special h) rfl h hraw hc hy

-- =========================================================== what is written

/-- The fields that are written with a comma. -/
def laterText (fs : List (Chars × FieldValue)) : Chars :=
  fs.flatMap fun f => ',' :: f.1 ++ '=' :: format f.2

/-- The tags, one after the other. -/
def tagText (ts : List (Chars × Chars)) : Chars :=
  ts.flatMap fun t => ',' :: escape t.1 ++ '=' :: escape t.2

/-- Each further field has a comma before it. -/
theorem laterText_cons (f : Chars × FieldValue)
    (fs : List (Chars × FieldValue)) :
    laterText (f :: fs) = ',' :: f.1 ++ '=' :: format f.2 ++ laterText fs :=
  List.flatMap_cons

/-- So has each tag. -/
theorem tagText_cons (t : Chars × Chars) (ts : List (Chars × Chars)) :
    tagText (t :: ts) = ',' :: escape t.1 ++ '=' :: escape t.2 ++ tagText ts :=
  List.flatMap_cons

/-- The fields that have names. -/
def namedFields (fs : List (Chars × FieldValue)) : List (Chars × FieldValue) :=
  fs.filter fun f => f.1 ≠ []

/-- The tags that have names and values. -/
def keptTags (ts : List (Chars × Chars)) : List (Chars × Chars) :=
  ts.filter fun t => t.1 ≠ [] ∧ t.2 ≠ []

/-- The fields of a point. -/
def fieldsOf (fs : List (Chars × FieldValue)) : List (Chars × Value) :=
  (namedFields fs).map fun f => (f.1, f.2.value)

/-- The loop appends the fields that have names. -/
theorem foldl_laterField (str : Chars) (fs : List (Chars × FieldValue)) :
    fs.foldl laterField str = str ++ laterText (namedFields fs) := by
  induction fs generalizing str with
  | nil => exact (List.append_nil str).symm
  | cons f fs ih =>
      rw [List.foldl_cons, ih]
      by_cases hf : f.1 = []
      · simp [laterField, namedFields, hf]
      · simp [laterField, namedFields, laterText, hf, format_ne_nil]

/-- The first field is escaped, the others are not. -/
theorem fieldSet_cons (f : Chars × FieldValue) (fs : List (Chars × FieldValue)) :
    fieldSet (f :: fs)
      = (if f.1 = [] then [] else escape f.1 ++ '=' :: format f.2)
        ++ laterText (namedFields fs) := by
  rw [fieldSet, foldl_laterField, firstField]
  by_cases hf : f.1 = []
  · rw [if_pos hf, if_neg fun h => h.1 hf]
  · rw [if_neg hf, if_pos ⟨hf, format_ne_nil f.2⟩]

/-- The loop writes the tags that are kept. -/
theorem tagSet_eq (ts : List (Chars × Chars)) :
    tagSet ts = tagText (keptTags ts) := by
  have hfoldl (str : Chars) :
      ts.foldl nextTag str = str ++ tagText (keptTags ts) := by
    induction ts generalizing str with
    | nil => exact (List.append_nil str).symm
    | cons t ts ih =>
        rw [List.foldl_cons, ih]
        by_cases ht : t.1 ≠ [] ∧ t.2 ≠ []
        · simp [nextTag, keptTags, tagText, ht]
        · simp [nextTag, keptTags, ht]
  exact hfoldl []

/-- Nor do fields in a row. -/
theorem getLast_laterText {c : Char} (hc : c = '\\' ∨ c = '\n') {x : Chars}
    (hx : x.getLast? ≠ some c) (fs : List (Chars × FieldValue)) :
    (x ++ laterText fs).getLast? ≠ some c := by
  induction fs using List.reverseRecOn with
  | nil => simpa [laterText] using hx
  | append_singleton fs f _ =>
      have hlast := getLast_field hc (x ++ laterText fs ++ ',' :: f.1) f.2
      simpa [laterText] using hlast

/-- Tags do not end in a backslash. -/
theorem getLast_tags {y text : Chars} {ts : List (Chars × Chars)}
    (hy : y.getLast? ≠ some '\\') (h : Elements TagText text ts) :
    (y ++ text).getLast? ≠ some '\\' := by
  cases ts using List.reverseRecOn with
  | nil =>
      cases h
      simpa using hy
  | append_singleton ts t =>
      obtain ⟨front, raw, _, htag, rfl⟩ := h.exists_last
      cases htag with
      | @mk key k value v _ _ hvalue hv =>
          have hne : value ≠ [] := fun hnil => hv (hvalue.nil_iff.1 hnil)
          have htext : y ++ (front ++ ',' :: (key ++ '=' :: value))
              = (y ++ front ++ ',' :: key ++ ['=']) ++ value := by simp
          rw [htext, List.getLast?_append_of_ne_nil _ hne]
          exact hvalue.getLast_ne rfl

-- ============================================================== alignment

/-- Fields after the first. -/
theorem align_later {fs : List (Chars × FieldValue)} {x y text : Chars}
    (h : x ++ laterText fs = y ++ text)
    (hread : Elements FieldText text (fs.map fun f => (f.1, f.2.value)))
    (hx : x.getLast? ≠ some '\\') :
    x = y ∧ ∀ f ∈ fs, keys.Escaped f.1 f.1 ∧ Literal (format f.2) f.2.value := by
  induction fs using List.reverseRecOn generalizing text with
  | nil =>
      cases hread
      refine ⟨by simpa [laterText] using h, fun f hf => nomatch hf⟩
  | append_singleton fs f ih =>
      rw [List.map_append] at hread
      obtain ⟨front, raw, hfront, hfield, rfl⟩ := hread.exists_last
      cases hfield with
      | @mk key _ value _ hkey _ hvalue =>
          obtain ⟨hkeys, hformat⟩ := align_value
            (x := (x ++ laterText fs) ++ ',' :: f.1)
            (y := (y ++ front) ++ ',' :: key)
            (by simpa [laterText] using h) hvalue
          obtain ⟨hfields, _, hk⟩ := Delimiters.align_plain hkeys hkey rfl
            (getLast_laterText (.inl rfl) hx fs)
          obtain ⟨hxy, hall⟩ := ih hfields hfront
          refine ⟨hxy, ?_⟩
          intro g hg
          obtain hg | hg := List.mem_append.1 hg
          · exact hall g hg
          · rw [List.mem_singleton.1 hg]
            exact ⟨hk ▸ hkey, hformat ▸ hvalue⟩

/-- Tags. -/
theorem align_tags {ts : List (Chars × Chars)} {x y text : Chars}
    (h : x ++ tagText ts = y ++ text) (hread : Elements TagText text ts)
    (hy : y.getLast? ≠ some '\\') :
    x = y ∧ ∀ t ∈ ts, Escapable t.1 ∧ Escapable t.2 := by
  induction ts using List.reverseRecOn generalizing text with
  | nil =>
      cases hread
      refine ⟨by simpa [tagText] using h, fun f hf => nomatch hf⟩
  | append_singleton ts t ih =>
      obtain ⟨front, raw, hfront, htag, rfl⟩ := hread.exists_last
      cases htag with
      | @mk key k value v hkey hk hvalue hv =>
          have hne : key ≠ [] := fun hnil => hk (hkey.nil_iff.1 hnil)
          obtain ⟨hkeys, hv'⟩ := align_escape
            (x := (x ++ tagText ts) ++ ',' :: escape k)
            (y := (y ++ front ++ [',']) ++ key)
            (by simpa [tagText] using h) hvalue rfl (by
              rw [List.getLast?_append_of_ne_nil _ hne]
              exact hkey.getLast_ne rfl)
          obtain ⟨htags, hk'⟩ := align_escape
            (x := x ++ tagText ts) (y := y ++ front)
            (by simpa using hkeys) hkey rfl (getLast_tags hy hfront)
          obtain ⟨hxy, hall⟩ := ih htags hfront
          refine ⟨hxy, ?_⟩
          intro u hu
          obtain hu | hu := List.mem_append.1 hu
          · exact hall u hu
          · rw [List.mem_singleton.1 hu]
            exact ⟨escaped_escape.1 (hk' ▸ hkey), escaped_escape.1 (hv' ▸ hvalue)⟩

-- ======================================================= what can be read

/-- An escaped text that can be read back is one line. -/
theorem newline_escape {s : Chars} (h : Escapable s) : '\n' ∉ escape s := by
  intro hmem
  obtain ⟨c, hc, hin⟩ := List.mem_flatMap.1 hmem
  have heq : '\n' = c := by
    split at hin
    · simpa using hin
    · simpa using hin
  have hspace := h.1 c hc (heq ▸ rfl)
  rw [hspace] at heq
  cases heq

/-- Tags that can be escaped are read back in order. -/
theorem listed_tags {ts : List (Chars × Chars)}
    (hne : ∀ t ∈ ts, t.1 ≠ [] ∧ t.2 ≠ [])
    (h : ∀ t ∈ ts, Escapable t.1 ∧ Escapable t.2) :
    Elements TagText (tagText ts) ts ∧ '\n' ∉ tagText ts := by
  induction ts with
  | nil => exact ⟨.nil, List.not_mem_nil⟩
  | cons t ts ih =>
      obtain ⟨hk, hv⟩ := h t (List.mem_cons_self ..)
      obtain ⟨hkne, hvne⟩ := hne t (List.mem_cons_self ..)
      obtain ⟨hlisted, hfree⟩ :=
        ih (fun u hu => hne u (List.mem_cons_of_mem t hu))
          fun u hu => h u (List.mem_cons_of_mem t hu)
      have htag := TagText.mk (escaped_escape.2 hk) hkne (escaped_escape.2 hv) hvne
      refine ⟨by simpa [tagText_cons] using Elements.cons htag hlisted, ?_⟩
      have hkfree := newline_escape hk
      have hvfree := newline_escape hv
      rw [tagText_cons]
      simp [hkfree, hvfree, hfree]

/-- A name that is written as it is. -/
def Verbatim (s : Chars) : Prop :=
  (∀ c ∈ s, c ≠ ',' ∧ c ≠ '=' ∧ c ≠ ' ' ∧ c ≠ '\n') ∧ s.getLast? ≠ some '\\'

/-- Fields that are verbatim are read back in order. -/
theorem listed_fields {fs : List (Chars × FieldValue)}
    (hne : ∀ f ∈ fs, f.1 ≠ []) (h : ∀ f ∈ fs, Verbatim f.1 ∧ f.2.Quotable) :
    Elements FieldText (laterText fs) (fs.map fun f => (f.1, f.2.value))
      ∧ '\n' ∉ laterText fs := by
  induction fs with
  | nil => exact ⟨.nil, List.not_mem_nil⟩
  | cons f fs ih =>
      obtain ⟨⟨hchars, hlast⟩, hvalue⟩ := h f (List.mem_cons_self ..)
      obtain ⟨hlisted, hfree⟩ :=
        ih (fun g hg => hne g (List.mem_cons_of_mem f hg))
          fun g hg => h g (List.mem_cons_of_mem f hg)
      obtain ⟨hliteral, hvfree⟩ := literal_format.2 hvalue
      have hkey : keys.Escaped f.1 f.1 := escaped_keys.2
        ⟨fun c hc => ⟨(hchars c hc).1, (hchars c hc).2.1, (hchars c hc).2.2.1⟩,
          hlast⟩
      have hkfree : '\n' ∉ f.1 := fun hmem => (hchars _ hmem).2.2.2 rfl
      have hfield := FieldText.mk hkey (hne f (List.mem_cons_self ..)) hliteral
      refine ⟨by simpa [laterText_cons] using Elements.cons hfield hlisted, ?_⟩
      rw [laterText_cons]
      simp [hkfree, hvfree, hfree]

-- ================================================================ insert

namespace TimeSeriesMeasurement

variable {numTags numFields : Nat}

/-- What a measurement needs for its points to be read. -/
structure Insertable (m : TimeSeriesMeasurement numTags numFields)
    (fieldValues : Vector FieldValue numFields)
    (tagValues : Vector Chars numTags) : Prop where
  measurement_ne : m.measurement ≠ []
  oneLine : '\n' ∉ m.measurement
  /-- Its own backslashes are in it. -/
  guarded : ∀ a c b, m.measurement = a ++ c :: b → c = ',' ∨ c = ' ' →
    a.getLast? = some '\\'
  last : m.measurement.getLast? ≠ some '\\'
  tags : ∀ t ∈ keptTags (m.tags tagValues), Escapable t.1 ∧ Escapable t.2
  first : ∀ f, (m.row fieldValues).head? = some f →
    f.1 ≠ [] ∧ Escapable f.1 ∧ f.2.Quotable
  later : ∀ f ∈ (m.row fieldValues).tail, f.1 ≠ [] →
    Verbatim f.1 ∧ f.2.Quotable

/-- A line that is posted is read as one point, with the tags and fields
that were given. -/
def InsertDecodes (m : TimeSeriesMeasurement numTags numFields)
    (fieldValues : Vector FieldValue numFields)
    (tagValues : Vector Chars numTags) : Prop :=
  ∀ line, m.insert fieldValues tagValues = some line →
    ∃ p, parse line = some [p] ∧ p.tags = keptTags (m.tags tagValues)
      ∧ p.fields = fieldsOf (m.row fieldValues)

variable {m : TimeSeriesMeasurement numTags numFields}
  {fieldValues : Vector FieldValue numFields}
  {tagValues : Vector Chars numTags} {f : Chars × FieldValue}
  {later : List (Chars × FieldValue)} {line : Chars} {p : Point}

/-- What is before the fields after the first. -/
def before (m : TimeSeriesMeasurement numTags numFields)
    (tagValues : Vector Chars numTags) (f : Chars × FieldValue) : Chars :=
  m.measurement ++ tagText (keptTags (m.tags tagValues)) ++ [' ']
    ++ if f.1 = [] then [] else escape f.1 ++ '=' :: format f.2

/-- A line is made if some field has a name. -/
theorem insert_eq_some (hrow : m.row fieldValues = f :: later) :
    m.insert fieldValues tagValues = some line
      ↔ (∃ g ∈ m.row fieldValues, g.1 ≠ [])
        ∧ line = m.before tagValues f ++ laterText (namedFields later) := by
  have hnil : fieldSet (f :: later) = [] ↔ ¬ ∃ g ∈ f :: later, g.1 ≠ [] := by
    rw [fieldSet_cons]
    by_cases hf : f.1 = []
    · simp [hf, laterText, namedFields]
    · simp [hf]
  unfold insert before
  rw [hrow, tagSet_eq]
  by_cases hnamed : ∃ g ∈ f :: later, g.1 ≠ []
  · rw [if_neg fun h => hnil.1 h hnamed, fieldSet_cons]
    constructor
    · intro h
      injection h with h
      exact ⟨hnamed, by rw [← h]; simp⟩
    · rintro ⟨_, rfl⟩
      simp
  · rw [if_pos (hnil.2 hnamed)]
    exact iff_of_false (fun h => nomatch h) fun h => hnamed h.1

/-- Nor does the line. -/
theorem getLast_line {c : Char} (hc : c = '\\' ∨ c = '\n') :
    (m.before tagValues f ++ laterText (namedFields later)).getLast?
      ≠ some c := by
  apply getLast_laterText hc
  unfold before
  split
  · rw [List.append_nil, List.getLast?_concat]
    rcases hc with rfl | rfl <;> decide
  · rw [← List.append_assoc]
    exact getLast_field hc _ f.2

/-- A line can only be read as given if its fields begin with the first one
of the row. -/
theorem first_named (hline : Line (m.before tagValues f
      ++ laterText (namedFields later)) p)
    (hfields : p.fields = fieldsOf (f :: later)) : f.1 ≠ [] := by
  intro hf
  unfold before at hline
  rw [if_pos hf, List.append_nil] at hline
  have hnamed : namedFields (f :: later) = namedFields later := by
    simp [namedFields, hf]
  unfold fieldsOf at hfields
  rw [hnamed] at hfields
  generalize hfs : namedFields later = fs at hline hfields
  generalize htext : m.measurement ++ tagText (keptTags (m.tags tagValues))
    ++ [' '] ++ laterText fs = text at hline
  cases hline with
  | @mk name _ tagText' first fieldText _ field fields _ _ _ hfirst hlater =>
      cases fs with
      | nil => cases hfields
      | cons g gs =>
          injection hfields with hfield hfields
          subst hfield hfields
          cases hfirst with
          | @mk key _ value _ hkey _ hvalue =>
              -- the comma of the first element that is written
              obtain ⟨hgs, _⟩ := align_later
                (x := m.measurement ++ tagText (keptTags (m.tags tagValues))
                  ++ [' '] ++ ',' :: g.1 ++ '=' :: format g.2)
                (y := name ++ tagText' ++ ' ' :: (key ++ '=' :: value))
                (by simpa [laterText] using htext) hlater
                (getLast_field (.inl rfl) _ g.2)
              obtain ⟨hg, _⟩ := align_value
                (y := name ++ tagText' ++ ' ' :: key)
                (hgs.trans (by simp)) hvalue
              obtain ⟨_, hcomma, _⟩ := Delimiters.align_plain hg hkey rfl
                (by simp)
              cases hcomma

/-- What is read as it was given meets the condition. -/
theorem insertable_of_line (hrow : m.row fieldValues = f :: later)
    (hfree : '\n' ∉ m.before tagValues f ++ laterText (namedFields later))
    (hline : Line (m.before tagValues f ++ laterText (namedFields later)) p)
    (htags : p.tags = keptTags (m.tags tagValues))
    (hfields : p.fields = fieldsOf (m.row fieldValues)) :
    m.Insertable fieldValues tagValues := by
  rw [hrow] at hfields
  have hf := first_named hline hfields
  have hnamed : fieldsOf (f :: later)
      = (f.1, f.2.value) :: (namedFields later).map fun f => (f.1, f.2.value) := by
    simp [fieldsOf, namedFields, hf]
  rw [hnamed] at hfields
  unfold before at hline hfree
  rw [if_neg hf] at hline hfree
  generalize htext : m.measurement ++ tagText (keptTags (m.tags tagValues))
    ++ [' '] ++ (escape f.1 ++ '=' :: format f.2)
    ++ laterText (namedFields later) = text at hline hfree
  cases hline with
  | @mk name measurement tagText' first fieldText tags field fields
      hname hne hlisted hfirst hlater =>
      injection hfields with hfield hfields
      subst hfield hfields htags
      cases hfirst with
      | @mk key _ value _ hkey _ hvalue =>
          have hnameLast := hname.getLast_ne rfl
          -- from the end: the later fields, the first one, the tags
          obtain ⟨hfirst, hlaterOk⟩ := align_later
            (x := m.measurement ++ tagText (keptTags (m.tags tagValues))
              ++ [' '] ++ (escape f.1 ++ '=' :: format f.2))
            (y := name ++ tagText' ++ ' ' :: (key ++ '=' :: value))
            (by simpa using htext) hlater
            (by
              rw [← List.append_assoc]
              exact getLast_field (.inl rfl) _ f.2)
          obtain ⟨hkeys, hformat⟩ := align_value
            (x := m.measurement ++ tagText (keptTags (m.tags tagValues))
              ++ ' ' :: escape f.1)
            (y := name ++ tagText' ++ ' ' :: key)
            (by simpa using hfirst) hvalue
          obtain ⟨htags, hk⟩ := align_escape hkeys hkey rfl
            (getLast_tags hnameLast hlisted)
          obtain ⟨hmeasurement, htagsOk⟩ := align_tags htags hlisted hnameLast
          subst hmeasurement hk hformat
          rw [← htext] at hfree
          simp only [List.mem_append, List.mem_cons, not_or] at hfree
          obtain ⟨⟨⟨⟨hm, _⟩, _⟩, _, _, hformatFree⟩, hlaterFree⟩ := hfree
          have hlaterMem : ∀ g ∈ namedFields later, '\n' ∉ g.1 ∧ '\n' ∉ format g.2 := by
            intro g hg
            refine ⟨fun h => hlaterFree ?_, fun h => hlaterFree ?_⟩
            · exact List.mem_flatMap.2 ⟨g, hg, by simp [h]⟩
            · exact List.mem_flatMap.2 ⟨g, hg, by simp [h]⟩
          refine
            { measurement_ne := fun h => hne (hname.nil_iff.1 h)
              oneLine := hm
              guarded := ?_
              last := hnameLast
              tags := htagsOk
              first := ?_
              later := ?_ }
          · intro a c b hab hc
            exact hname.guarded hab (by rcases hc with rfl | rfl <;> rfl)
          · intro g hg
            rw [hrow] at hg
            injection hg with hg
            subst hg
            exact ⟨hf, escaped_escape.1 hkey, literal_format.1 ⟨hvalue, hformatFree⟩⟩
          · intro g hg hgne
            rw [hrow] at hg
            have hmem : g ∈ namedFields later :=
              List.mem_filter.2 ⟨hg, by simpa using hgne⟩
            obtain ⟨hgkey, hgvalue⟩ := hlaterOk g hmem
            obtain ⟨hgfree, hgformat⟩ := hlaterMem g hmem
            obtain ⟨hchars, hlast⟩ := escaped_keys.1 hgkey
            refine ⟨⟨?_, hlast⟩, literal_format.1 ⟨hgvalue, hgformat⟩⟩
            intro c hc
            obtain ⟨hcomma, hequals, hspace⟩ := hchars c hc
            exact ⟨hcomma, hequals, hspace, fun heq => hgfree (heq ▸ hc)⟩

/-- What meets the condition is read as it was given. -/
theorem line_of_insertable (hrow : m.row fieldValues = f :: later)
    (h : m.Insertable fieldValues tagValues) :
    '\n' ∉ m.before tagValues f ++ laterText (namedFields later)
      ∧ ∃ p, Line (m.before tagValues f ++ laterText (namedFields later)) p
        ∧ p.tags = keptTags (m.tags tagValues)
        ∧ p.fields = fieldsOf (m.row fieldValues) := by
  obtain ⟨hf, hkey, hvalue⟩ := h.first f (by rw [hrow]; rfl)
  obtain ⟨hliteral, hvfree⟩ := literal_format.2 hvalue
  have hfirst := FieldText.mk (escaped_escape.2 hkey) hf hliteral
  have hkept : ∀ t ∈ keptTags (m.tags tagValues), t.1 ≠ [] ∧ t.2 ≠ [] := by
    intro t ht
    simpa using (List.mem_filter.1 ht).2
  have hnamed : ∀ g ∈ namedFields later, g.1 ≠ [] := by
    intro g hg
    simpa using (List.mem_filter.1 hg).2
  have hlater : ∀ g ∈ namedFields later, Verbatim g.1 ∧ g.2.Quotable := by
    intro g hg
    exact h.later g (by rw [hrow]; exact (List.mem_filter.1 hg).1) (hnamed g hg)
  obtain ⟨hlistedTags, htfree⟩ := listed_tags hkept h.tags
  obtain ⟨hlistedFields, hffree⟩ := listed_fields hnamed hlater
  obtain ⟨measurement, hname⟩ :=
    (Delimiters.exists_escaped (d := names) fun _ hc => hc).2
      ⟨fun a c b hab hc => h.guarded a c b hab (by simpa [names] using hc), h.last⟩
  have hne : measurement ≠ [] := fun hnil =>
    h.measurement_ne (hname.nil_iff.2 hnil)
  have hline := Line.mk hname hne hlistedTags hfirst hlistedFields
  unfold before
  rw [if_neg hf]
  refine ⟨?_, _, by simpa using hline, rfl, ?_⟩
  · have hm := h.oneLine
    have hk := newline_escape hkey
    simp [hm, htfree, hk, hvfree, hffree]
  · rw [hrow]
    simp [fieldsOf, namedFields, hf]

end TimeSeriesMeasurement

open TimeSeriesMeasurement in
/-- A line that is posted is decoded if and only if what it is of can be
inserted. -/
theorem insert_decodes_iff {numTags numFields : Nat}
    (m : TimeSeriesMeasurement numTags numFields)
    (fieldValues : Vector FieldValue numFields)
    (tagValues : Vector Chars numTags) :
    m.InsertDecodes fieldValues tagValues
      ↔ ((∃ f ∈ m.row fieldValues, f.1 ≠ [])
          → m.Insertable fieldValues tagValues) := by
  cases hrow : m.row fieldValues with
  | nil =>
      have hnone : m.insert fieldValues tagValues = none := by
        unfold TimeSeriesMeasurement.insert
        rw [hrow]
        rfl
      unfold InsertDecodes
      rw [hnone]
      simp
  | cons f later =>
      have hparse {p : Point} :=
        parse_single (m.before tagValues f ++ laterText (namedFields later))
          (p := p) (by simp [before]) (getLast_line (.inr rfl))
      rw [← hrow]
      constructor
      · intro h hposted
        obtain ⟨p, hp, htags, hfields⟩ :=
          h _ ((insert_eq_some hrow).2 ⟨hposted, rfl⟩)
        obtain ⟨hfree, hline⟩ := hparse.1 hp
        exact insertable_of_line hrow hfree hline htags hfields
      · intro h line hinsert
        obtain ⟨hposted, rfl⟩ := (insert_eq_some hrow).1 hinsert
        obtain ⟨hfree, p, hline, htags, hfields⟩ :=
          line_of_insertable hrow (h hposted)
        exact ⟨p, hparse.2 ⟨hfree, hline⟩, htags, hfields⟩

example : parse "disk,device=sd\\ a used\\ size=5".toList
    = some [⟨"disk".toList, [("device".toList, "sd a".toList)],
      [("used size".toList, .int 5)]⟩] := by decide +kernel

/-- A point with a tag, a number and a string. -/
def sampleMeasurement : TimeSeriesMeasurement 1 2 where
  measurement := "disk".toList
  fieldNames := #v["used size".toList, "label".toList]
  tagNames := #v["device".toList]

/-- The quote in a string ends it, and what is behind it is no field. -/
theorem quote_not_decoded :
    ¬ sampleMeasurement.InsertDecodes
      #v[.number 5, .string ['a', '\x22', 'b']] #v["sd a".toList] := by
  intro h
  have hinsert : sampleMeasurement.insert
      #v[.number 5, .string ['a', '\x22', 'b']] #v["sd a".toList]
      = some ("disk,device=sd\\ a used\\ size=5,label=\x22a\x22b\x22".toList) := by
    decide +kernel
  obtain ⟨p, hp, _⟩ := h _ hinsert
  have hnone : parse "disk,device=sd\\ a used\\ size=5,label=\x22a\x22b\x22".toList
      = none := by
    decide +kernel
  rw [hnone] at hp
  cases hp

end BigDataExpress

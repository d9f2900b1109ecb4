/-
What is read of a text that was written?

A double may be written without a point or an exponent, and is an integer
then; what is not a number is null. So a value arrives with its doubles
replaced by what their texts are read as (`received`), and with everything
else as it was, if it is not nested too deeply (`depth`). Both conditions
are needed (`parse_write_iff`). What the reader accepts is such a value,
and relaying it once more changes nothing.

The reading follows the structure of the value. Behind a value stands a
comma, a bracket or the end of the line, which a number does not run into
(`Stops`).
-/
import BigDataExpress.Utils.JsonText

namespace BigDataExpress

namespace Json

open Text Reader FastWriter

-- =============================================================== strings

/-- A plain character is written as it is. -/
theorem escapeChar_plain {c : Char} (h : isPlain [c] = true) :
    escapeChar c = [c] := by
  simp only [isPlain, List.all_cons, List.all_nil, Bool.and_true,
    Bool.and_eq_true, Option.isNone_iff_eq_none, Bool.not_eq_true'] at h
  unfold escapeChar
  rw [h.1]
  show (if _ then _ else _) = _
  rw [h.2]
  rfl

/-- The short way of quoting a string and the long one agree. -/
theorem valueToQuotedStringN_eq (value : Chars) :
    valueToQuotedStringN value
      = '\x22' :: value.flatMap escapeChar ++ ['\x22'] := by
  unfold valueToQuotedStringN
  by_cases hplain : isPlain value = true
  · rw [if_pos hplain]
    have hself : value.flatMap escapeChar = value := by
      induction value with
      | nil => rfl
      | cons c value ih =>
          have hc : isPlain [c] = true ∧ isPlain value = true := by
            simpa [isPlain] using hplain
          rw [List.flatMap_cons, escapeChar_plain hc.1, ih hc.2]
          rfl
    rw [hself]
  · rw [if_neg hplain]

/-- How a character is written in a string. -/
inductive Written : Char → Chars → Prop
  | plain {c : Char} (hback : c ≠ '\\') (hquote : c ≠ '\x22') : Written c [c]
  | letter {c letter : Char} (h : (c, letter) ∈ shortEscapes) :
      Written c ['\\', letter]
  | code {c : Char} (h : c.toNat ≤ 0x1F) : Written c (unicodeEscape c.toNat)

/-- Whatever the printer makes of a character is one of the three
spellings. -/
theorem written_escapeChar (c : Char) : Written c (escapeChar c) := by
  unfold escapeChar
  cases hletter : shortEscapes.lookup c with
  | some letter => exact .letter (List.lookup_eq_some_iff.1 hletter |> fun h => by
      obtain ⟨l₁, l₂, heq, _⟩ := h
      rw [heq]
      simp)
  | none =>
      show Written c (if _ then _ else _)
      by_cases hcode : (isControlCharacter c || c == '\x00') = true
      · rw [if_pos hcode]
        apply Written.code
        rcases Bool.or_eq_true _ _ ▸ hcode with hctrl | hzero
        · exact (of_decide_eq_true hctrl).2
        · rw [eq_of_beq hzero]
          decide
      · rw [if_neg hcode]
        apply Written.plain
        · intro heq
          subst heq
          cases hletter
        · intro heq
          subst heq
          cases hletter

/-- No character is written as nothing. -/
theorem Written.length_pos {c : Char} {text : Chars} (h : Written c text) :
    1 ≤ text.length := by
  cases h with
  | plain => exact Nat.le_refl 1
  | letter => exact Nat.le_add_left 1 1
  | code => exact Nat.le_add_left 1 5

/-- A character that is no backslash and no quote is taken over. -/
theorem readString_plain {c : Char} (hback : c ≠ '\\') (hquote : c ≠ '\x22')
    (text : Chars) :
    readString (c :: text)
      = (readString text).map fun r => (c :: r.1, r.2) := by
  rw [readString, if_neg hquote]
  · exact fun h _ => hback h
  · exact fun _ _ h _ => hback h

/-- A backslash takes the next character with it, a quote too. -/
theorem readString_pair (c : Char) (text : Chars) :
    readString ('\\' :: c :: text)
      = (readString text).map fun r => ('\\' :: c :: r.1, r.2) := rfl

/-- A hexadecimal digit is plain, and is read as what it stands for. -/
theorem upperHex_plain : ∀ n < 16, upperHex n ≠ '\\' ∧ upperHex n ≠ '\x22'
    ∧ hexValue (upperHex n) = some n := by decide

/-- A written character does not end the string. -/
theorem Written.readString {c : Char} {raw : Chars} (h : Written c raw)
    (text : Chars) :
    readString (raw ++ text)
      = (readString text).map fun r => (raw ++ r.1, r.2) := by
  cases h with
  | plain hback hquote => exact readString_plain hback hquote text
  | letter => exact readString_pair _ text
  | code =>
      have hmod (n : Nat) : n % 16 < 16 := Nat.mod_lt _ (by decide)
      unfold unicodeEscape
      simp only [List.cons_append, List.nil_append, readString_pair,
        readString_plain (upperHex_plain _ (hmod _)).1
          (upperHex_plain _ (hmod _)).2.1, Option.map_map]
      rfl

/-- A string is read up to its closing quote. -/
theorem readString_escaped (value rest : Chars) :
    readString (value.flatMap escapeChar ++ '\x22' :: rest)
      = some (value.flatMap escapeChar, rest) := by
  induction value with
  | nil => rfl
  | cons c value ih =>
      rw [List.flatMap_cons, List.append_assoc,
        (written_escapeChar c).readString, ih]
      rfl

/-- Each short escape is decoded as its character. -/
theorem decodeEscape_letter : ∀ p ∈ shortEscapes, ∀ text : Chars,
    decodeEscape (p.2 :: text) = some ([p.1], text) := by
  intro p hp text
  simp only [shortEscapes, List.mem_cons, List.not_mem_nil, or_false] at hp
  rcases hp with rfl | rfl | rfl | rfl | rfl | rfl | rfl <;> rfl

/-- A control character is decoded from its four digits. -/
theorem decodeEscape_code {c : Char} (h : c.toNat ≤ 0x1F) (text : Chars) :
    decodeEscape ((unicodeEscape c.toNat).tail ++ text)
      = some ([c], text) := by
  have hmod (n : Nat) : hexValue (upperHex (n % 16)) = some (n % 16) :=
    (upperHex_plain _ (Nat.mod_lt _ (by decide))).2.2
  have hvalue : ((c.toNat / 4096 % 16 * 16 + c.toNat / 256 % 16) * 16
      + c.toNat / 16 % 16) * 16 + c.toNat % 16 = c.toNat := by omega
  have hdecode : decodeUnicodeCodePoint
      (upperHex (c.toNat / 4096 % 16) :: upperHex (c.toNat / 256 % 16)
        :: upperHex (c.toNat / 16 % 16) :: upperHex (c.toNat % 16) :: text)
      = some (c.toNat, text) := by
    simp only [decodeUnicodeCodePoint, decodeUnicodeEscapeSequence, hmod,
      Option.bind_eq_bind, Option.bind_some, Option.pure_def, hvalue]
    rw [if_neg (by omega)]
  show (decodeUnicodeCodePoint (_ :: _ :: _ :: _ :: text)).map _ = _
  rw [hdecode]
  show some (codePointToUTF8 c.toNat, text) = _
  rw [codePointToUTF8, if_pos (by omega), Char.ofNat_toNat]

/-- Decoding undoes the writing of one character. -/
theorem Written.decodeChars {c : Char} {raw : Chars} (h : Written c raw)
    (fuel : Nat) (text : Chars) :
    decodeChars (fuel + 1) (raw ++ text)
      = (Reader.decodeChars fuel text).map (c :: ·) := by
  have hescape {letters : Chars}
      (hd : decodeEscape (letters ++ text) = some ([c], text)) :
      Reader.decodeChars (fuel + 1) ('\\' :: letters ++ text)
        = (Reader.decodeChars fuel text).map (c :: ·) := by
    show (decodeEscape (letters ++ text)).bind _ = _
    rw [hd]
    show (Reader.decodeChars fuel text).bind _ = _
    cases Reader.decodeChars fuel text with
    | none => rfl
    | some s => rfl
  cases h with
  | plain hback hquote =>
      show Reader.decodeChars (fuel + 1) (c :: text) = _
      rw [Reader.decodeChars, if_neg hquote]
      exact fun h => hback h
  | letter h => exact hescape (decodeEscape_letter _ h text)
  | code h => exact hescape (decodeEscape_code h text)

/-- Decoding undoes the writing of a whole text. -/
theorem decodeChars_escaped (value : Chars) {fuel : Nat}
    (hfuel : value.length ≤ fuel) :
    decodeChars fuel (value.flatMap escapeChar) = some value := by
  induction value generalizing fuel with
  | nil => cases fuel <;> rfl
  | cons c value ih =>
      obtain ⟨fuel, rfl⟩ : ∃ n, fuel = n + 1 :=
        ⟨fuel - 1, by simp only [List.length_cons] at hfuel; omega⟩
      rw [List.flatMap_cons, (written_escapeChar c).decodeChars,
        ih (Nat.le_of_succ_le_succ hfuel)]
      rfl

/-- Writing a text makes it no shorter, so its length is fuel enough. -/
theorem length_le_escaped (value : Chars) :
    value.length ≤ (value.flatMap escapeChar).length := by
  induction value with
  | nil => exact Nat.le_refl 0
  | cons c value ih =>
      have hpos := (written_escapeChar c).length_pos
      simp only [List.flatMap_cons, List.length_cons, List.length_append]
      omega

/-- A string is read back as it was, whatever characters it has. -/
theorem decodeString_escaped (s : String) :
    decodeString (s.toList.flatMap escapeChar) = some s := by
  unfold decodeString
  rw [decodeChars_escaped _ (length_le_escaped _)]
  exact congrArg some String.ofList_toList

-- =============================================================== numbers

/-- A number does not run on into what stands behind it. -/
def Stops (rest : Chars) : Prop :=
  ∀ c, rest.head? = some c →
    c.isDigit = false ∧ c ≠ '.' ∧ c ≠ 'e' ∧ c ≠ 'E'

/-- A text of digits only. -/
abbrev AllDigits (text : Chars) : Prop := ∀ c ∈ text, c.isDigit = true

/-- Nothing, or a point with digits. -/
inductive FractionText : Chars → Prop
  | none : FractionText []
  | point {ds : Chars} (h : AllDigits ds) : FractionText ('.' :: ds)

/-- Nothing, or a signed exponent. -/
inductive ExponentText : Chars → Prop
  | none : ExponentText []
  | signed {sign : Char} {ds : Chars} (hsign : sign = '+' ∨ sign = '-')
      (h : AllDigits ds) : ExponentText ('e' :: sign :: ds)

/-- The text of a number, from its first character. -/
inductive NumberText : Chars → Prop
  | mk {c : Char} {ds f e : Chars} (hc : (c.isDigit || c == '-') = true)
      (hds : AllDigits ds) (hf : FractionText f) (he : ExponentText e) :
      NumberText (c :: ds ++ f ++ e)

/-- The reader takes all the digits there are, and stops after them. -/
theorem digits_append {ds rest : Chars} (h : AllDigits ds)
    (hrest : ∀ c, rest.head? = some c → c.isDigit = false) :
    digits (ds ++ rest) = (ds, rest) := by
  have hstop : rest.takeWhile Char.isDigit = []
      ∧ rest.dropWhile Char.isDigit = rest := by
    cases rest with
    | nil => exact ⟨rfl, rfl⟩
    | cons c rest =>
        have hc := hrest c rfl
        simp [hc]
  unfold digits
  rw [List.takeWhile_append_of_pos h, List.dropWhile_append_of_pos h, hstop.1,
    hstop.2, List.append_nil]

/-- The same with a start that was read before. -/
theorem digitsAfter_append {start ds rest : Chars} (h : AllDigits ds)
    (hrest : ∀ c, rest.head? = some c → c.isDigit = false) :
    digitsAfter start (ds ++ rest) = (start ++ ds, rest) := by
  unfold digitsAfter
  rw [digits_append h hrest]

/-- An exponent is read to its end. -/
theorem ExponentText.read {e rest : Chars} (h : ExponentText e)
    (hrest : Stops rest) : exponentialPart (e ++ rest) = (e, rest) := by
  cases h with
  | none =>
      cases rest with
      | nil => rfl
      | cons c rest =>
          obtain ⟨_, _, he, hE⟩ := hrest c rfl
          show exponentialPart (c :: rest) = _
          unfold exponentialPart
          split
          · rename_i heq
            exact absurd (List.cons.inj heq).1 he
          · rename_i heq
            exact absurd (List.cons.inj heq).1 hE
          · rfl
  | @signed sign ds hsign hds =>
      have hafter (sign : Char) : digitsAfter ['e', sign] (ds ++ rest)
          = ('e' :: sign :: ds, rest) :=
        digitsAfter_append hds fun c hc => (hrest c hc).1
      rcases hsign with rfl | rfl
      · exact hafter '+'
      · exact hafter '-'

/-- What begins a part that is not a fraction. -/
theorem ExponentText.head {e rest : Chars} (h : ExponentText e)
    (hrest : Stops rest) (c : Char) (hc : (e ++ rest).head? = some c) :
    c.isDigit = false ∧ c ≠ '.' := by
  cases h with
  | none => exact ⟨(hrest c hc).1, (hrest c hc).2.1⟩
  | signed hsign hds =>
      injection hc with hc
      subst hc
      decide

/-- A fraction is read to its end. -/
theorem FractionText.read {f rest : Chars} (h : FractionText f)
    (hrest : ∀ c, rest.head? = some c → c.isDigit = false ∧ c ≠ '.') :
    fractionalPart (f ++ rest) = (f, rest) := by
  cases h with
  | none =>
      cases rest with
      | nil => rfl
      | cons c rest =>
          show fractionalPart (c :: rest) = _
          unfold fractionalPart
          split
          · rename_i heq
            exact absurd (List.cons.inj heq).1 (hrest c rfl).2
          · rfl
  | point hds => exact digitsAfter_append hds fun c hc => (hrest c hc).1

/-- Where a fraction may follow, no further digit does. -/
theorem FractionText.head {f rest : Chars} (h : FractionText f)
    (hrest : ∀ c, rest.head? = some c → c.isDigit = false ∧ c ≠ '.')
    (c : Char) (hc : (f ++ rest).head? = some c) : c.isDigit = false := by
  cases h with
  | none => exact (hrest c hc).1
  | point hds =>
      injection hc with hc
      subst hc
      decide

/-- A digit or a minus begins a number. -/
theorem tokenFrom_number {c : Char} (hc : (c.isDigit || c == '-') = true)
    (text : Chars) : tokenFrom c text = readNumber c text := by
  unfold tokenFrom
  split
  case h_13 => rw [if_pos hc]
  all_goals exact absurd hc (by decide)

/-- Where no space comes first, the token begins at once. -/
theorem readToken_cons {c : Char} (hc : isSpace c = false) (text : Chars) :
    readToken (c :: text) = tokenFrom c text := by
  unfold readToken skipSpaces
  rw [List.dropWhile_cons_of_neg (by simp [hc])]

/-- No number begins with a space. -/
theorem isSpace_number {c : Char} (hc : (c.isDigit || c == '-') = true) :
    isSpace c = false := by
  by_cases hspace : isSpace c = true
  · have hcases : c = ' ' ∨ c = '\t' ∨ c = '\x0d' ∨ c = '\n' := by
      simpa [isSpace, or_assoc] using hspace
    rcases hcases with rfl | rfl | rfl | rfl <;> cases hc
  · exact Bool.eq_false_iff.2 hspace

/-- A number is read up to what stands behind it. -/
theorem NumberText.readToken {text rest : Chars} (h : NumberText text)
    (hrest : Stops rest) :
    readToken (text ++ rest) = (.number text, rest) := by
  cases h with
  | @mk c ds f e hc hds hf he =>
      have hexp := he.head hrest
      have hfrac := hf.head hexp
      have hassoc : c :: ds ++ f ++ e ++ rest
          = c :: (ds ++ (f ++ (e ++ rest))) := by
        simp only [List.cons_append, List.append_assoc]
      rw [hassoc, readToken_cons (isSpace_number hc), tokenFrom_number hc]
      unfold readNumber
      simp only [digits_append hds hfrac, hf.read hexp, he.read hrest,
        List.cons_append]

-- ============================================================== integers

/-- The decimals of a number are digits. -/
theorem allDigits_toDigits (n : Nat) : AllDigits (Nat.toDigits 10 n) :=
  fun _ hc => Nat.isDigit_of_mem_toDigits (by decide) (by decide) hc

/-- Digits, the first of which is named. -/
theorem exists_digits {ds : Chars} (hds : AllDigits ds) (hne : ds ≠ []) :
    ∃ c rest, ds = c :: rest ∧ c.isDigit = true ∧ AllDigits rest := by
  obtain ⟨c, rest, rfl⟩ := List.exists_cons_of_ne_nil hne
  exact ⟨c, rest, rfl, hds c (List.mem_cons_self ..),
    fun d hd => hds d (List.mem_cons_of_mem _ hd)⟩

/-- The text of a number without a sign. -/
inductive MagnitudeText : Chars → Prop
  | mk {ds f e : Chars} (hne : ds ≠ []) (hds : AllDigits ds)
      (hf : FractionText f) (he : ExponentText e) :
      MagnitudeText (ds ++ f ++ e)

/-- A magnitude is a number. -/
theorem MagnitudeText.number {text : Chars} (h : MagnitudeText text) :
    NumberText text := by
  cases h with
  | mk hne hds hf he =>
      obtain ⟨c, rest, rfl, hc, hrest⟩ := exists_digits hds hne
      exact .mk (by rw [hc]; rfl) hrest hf he

/-- A magnitude after a minus is a number. -/
theorem MagnitudeText.minus {text : Chars} (h : MagnitudeText text) :
    NumberText ('-' :: text) := by
  cases h with
  | mk hne hds hf he => exact .mk rfl hds hf he

/-- The decimals of a number are a magnitude. -/
theorem magnitude_toDigits (n : Nat) : MagnitudeText (Nat.toDigits 10 n) := by
  have h := MagnitudeText.mk Nat.toDigits_ne_nil (allDigits_toDigits n)
    .none .none
  rwa [List.append_nil, List.append_nil] at h

/-- An integer is written as a number. -/
theorem number_integerToString (n : Int) : NumberText (integerToString n) := by
  cases n with
  | ofNat n => exact (magnitude_toDigits n).number
  | negSucc n => exact (magnitude_toDigits (n + 1)).minus

/-- A numeral that fits is read as it is; the test before each digit does
not stop it. -/
theorem decodeDigits_eq {limit : Nat} (hlimit : 10 ≤ limit) {text : Chars}
    {value : Nat} (htext : AllDigits text)
    (hfits : Nat.ofDigitChars 10 text value ≤ limit) :
    decodeDigits limit value text
      = some (Nat.ofDigitChars 10 text value) := by
  induction text generalizing value with
  | nil => rfl
  | cons c text ih =>
      have hc : c.isDigit = true := htext c (List.mem_cons_self ..)
      rw [Nat.ofDigitChars_cons] at hfits ⊢
      have hzero : '0'.toNat = 48 := rfl
      have hcomm : 10 * value + (c.toNat - '0'.toNat)
          = value * 10 + (c.toNat - 48) := by omega
      rw [hcomm] at hfits ⊢
      have hgrows : Nat.ofDigitChars 10 text (value * 10 + (c.toNat - 48))
          = _ := Nat.ofDigitChars_eq_ofDigitChars_zero
      have hpass : ¬ (limit / 10 ≤ value ∧ (limit / 10 < value ∨ text ≠ []
          ∨ limit % 10 < c.toNat - 48)) := by
        rintro ⟨hle, hbad⟩
        cases text with
        | nil =>
            rw [Nat.ofDigitChars_nil] at hfits
            rcases hbad with h | h | h
            · omega
            · exact h rfl
            · omega
        | cons d text =>
            have hten : 10 ≤ 10 ^ (d :: text).length :=
              Nat.le_self_pow (by simp) 10
            have hmul : 10 * (value * 10 + (c.toNat - 48))
                ≤ 10 ^ (d :: text).length * (value * 10 + (c.toNat - 48)) :=
              Nat.mul_le_mul_right _ hten
            omega
      rw [decodeDigits, hc]
      show (if _ then _ else _) = _
      rw [if_neg hpass]
      exact ih (fun d hd => htext d (List.mem_cons_of_mem _ hd)) hfits

/-- An integer of the source, signed or unsigned. -/
def Fits (n : Int) : Prop := -2 ^ 63 ≤ n ∧ n < 2 ^ 64

/-- A text of digits is decoded in base ten, up to 64 bits. -/
theorem decodeInteger_digits {text : Chars} (h : AllDigits text) :
    decodeInteger text = (decodeDigits (2 ^ 64 - 1) 0 text).map Int.ofNat := by
  unfold decodeInteger
  split
  · exact absurd (h '-' (List.mem_cons_self ..)) (by decide)
  · rfl

/-- An integer that fits is decoded as itself. -/
theorem decodeInteger_toString {n : Int} (h : Fits n) :
    decodeInteger (integerToString n) = some n := by
  obtain ⟨hlow, hhigh⟩ := h
  have hdecode (limit m : Nat) (hlimit : 10 ≤ limit) (hm : m ≤ limit) :
      decodeDigits limit 0 (Nat.toDigits 10 m) = some m := by
    have hvalue := Nat.ofDigitChars_ten_toDigits (n := m)
    rw [decodeDigits_eq hlimit (allDigits_toDigits m) (by rwa [hvalue]), hvalue]
  cases n with
  | ofNat n =>
      have hn : (n : Int) < 2 ^ 64 := hhigh
      show decodeInteger (Nat.toDigits 10 n) = _
      rw [decodeInteger_digits (allDigits_toDigits n),
        hdecode _ _ (by decide) (by omega)]
      rfl
  | negSucc n =>
      show decodeInteger ('-' :: Nat.toDigits 10 (n + 1)) = _
      rw [decodeInteger, hdecode _ _ (by decide) (by omega)]
      rfl

/-- An integer that fits is read as an integer, not as a double. -/
theorem decodeNumber_integer (extract : Chars → Option Float) {n : Int}
    (h : Fits n) :
    decodeNumber extract (integerToString n) = some (.int n) := by
  unfold decodeNumber
  rw [decodeInteger_toString h]

-- =============================================================== doubles

/-- Decimals with a point are digits and a fraction. -/
theorem pointed_text {ds : Chars} (hds : AllDigits ds) (hne : ds ≠ [])
    {n : Nat} (hn : 1 ≤ n) :
    ∃ whole f, (pointed ds n).toList = whole ++ f ∧ whole ≠ []
      ∧ AllDigits whole ∧ FractionText f := by
  have htake : ds.take n ≠ [] := by
    intro h
    rcases List.take_eq_nil_iff.1 h with h | h
    · omega
    · exact hne h
  have hwhole : AllDigits (ds.take n) :=
    fun c hc => hds c (List.mem_of_mem_take hc)
  unfold pointed
  by_cases hfrac : ((ds.drop n).rdropWhile (· == '0')).isEmpty = true
  · refine ⟨ds.take n, [], ?_, htake, hwhole, .none⟩
    simp only [hfrac, if_true, String.toList_ofList, List.append_nil]
  · refine ⟨ds.take n, '.' :: (ds.drop n).rdropWhile (· == '0'), ?_, htake,
      hwhole, .point ?_⟩
    · simp only [hfrac, Bool.false_eq_true, if_false, String.toList_ofList]
    · intro c hc
      have hkept := List.rdropWhile_prefix (fun c => c == '0') (ds.drop n)
      exact hds c (List.mem_of_mem_drop (hkept.subset hc))

/-- Decimals with a point and an exponent are a magnitude. -/
theorem magnitude_pointed {ds : Chars} (hds : AllDigits ds) (hne : ds ≠ [])
    {n : Nat} (hn : 1 ≤ n) {e : Chars} (he : ExponentText e) :
    MagnitudeText ((pointed ds n).toList ++ e) := by
  obtain ⟨whole, f, htext, hwhole, hall, hf⟩ := pointed_text hds hne hn
  rw [htext]
  exact .mk hwhole hall hf he

/-- What is printed for a double without its sign is a magnitude. -/
theorem magnitude_printG (num den : Nat) :
    MagnitudeText (printG num den).toList := by
  unfold printG
  obtain ⟨d, e⟩ := significant num den
  have hds := allDigits_toDigits d
  have hne : Nat.toDigits 10 d ≠ [] := Nat.toDigits_ne_nil
  simp only
  by_cases hsmall : -4 ≤ e ∧ e < 0
  · rw [if_pos hsmall]
    have hall : AllDigits (List.replicate (-e).toNat '0' ++ Nat.toDigits 10 d) := by
      intro c hc
      rcases List.mem_append.1 hc with hc | hc
      · rw [List.eq_of_mem_replicate hc]
        rfl
      · exact hds c hc
    have h := magnitude_pointed hall (by simp [hne]) (Nat.le_refl 1) .none
    rwa [List.append_nil] at h
  · rw [if_neg hsmall]
    by_cases hmiddle : 0 ≤ e ∧ e < 17
    · rw [if_pos hmiddle]
      have h := magnitude_pointed hds hne (n := (e + 1).toNat) (by omega) .none
      rwa [List.append_nil] at h
    · rw [if_neg hmiddle]
      have hexp : AllDigits (if (Nat.toDigits 10 e.natAbs).length < 2 then
          '0' :: Nat.toDigits 10 e.natAbs else Nat.toDigits 10 e.natAbs) := by
        split
        · intro c hc
          rcases List.mem_cons.1 hc with rfl | hc
          · rfl
          · exact allDigits_toDigits _ c hc
        · exact allDigits_toDigits _
      simp only [String.toList_append, String.toList_ofList, List.append_assoc]
      apply magnitude_pointed hds hne (Nat.le_refl 1)
      by_cases hneg : e < 0
      · rw [if_pos hneg]
        exact .signed (.inr rfl) hexp
      · rw [if_neg hneg]
        exact .signed (.inl rfl) hexp

/-- With or without a minus, it is a number. -/
theorem number_signed (c : Prop) [Decidable c] {text : String}
    (h : MagnitudeText text.toList) :
    NumberText ((if c then "-" else "") ++ text).toList := by
  rw [String.toList_append]
  by_cases hc : c
  · rw [if_pos hc]
    exact h.minus
  · rw [if_neg hc]
    exact h.number

/-- A double is written as null or as a number. -/
theorem valueToString_text (x : Float) :
    valueToString x = "null" ∨ NumberText (valueToString x).toList := by
  have hhuge : MagnitudeText "1e+9999".toList :=
    have hexp : ExponentText ('e' :: '+' :: "9999".toList) :=
      .signed (.inl rfl) (List.all_eq_true.1 rfl)
    have hone : MagnitudeText (['1'] ++ [] ++ 'e' :: '+' :: "9999".toList) :=
      .mk (by simp) (List.all_eq_true.1 rfl) .none hexp
    hone
  have hzero : MagnitudeText "0".toList :=
    have hnil : MagnitudeText (['0'] ++ [] ++ []) :=
      .mk (by simp) (List.all_eq_true.1 rfl) .none .none
    hnil
  have hsigned {text : String} (h : MagnitudeText text.toList) :=
    number_signed (2 ^ 63 ≤ x.toBits.toNat) h
  unfold valueToString
  simp only
  by_cases hspecial : x.toBits.toNat / 2 ^ 52 % 2 ^ 11 = 2047
  · rw [if_pos hspecial]
    by_cases hnan : x.toBits.toNat % 2 ^ 52 ≠ 0
    · rw [if_pos hnan]
      exact .inl rfl
    · rw [if_neg hnan]
      right
      exact hsigned hhuge
  · rw [if_neg hspecial]
    right
    generalize (if x.toBits.toNat / 2 ^ 52 % 2 ^ 11 = 0 then _ else _) = m
    by_cases hm : m = 0
    · rw [if_pos hm]
      exact hsigned hzero
    · rw [if_neg hm]
      exact hsigned (magnitude_printG _ _)

-- ================================================================ values

/-- Induction over a value: its elements and members come first. -/
theorem induct {P : Json → Prop} (hnull : P .null) (hbool : ∀ b, P (.bool b))
    (hint : ∀ n, P (.int n)) (hreal : ∀ x, P (.real x))
    (hstr : ∀ s, P (.str s))
    (harr : ∀ items, (∀ v ∈ items, P v) → P (.arr items))
    (hobj : ∀ fields, (∀ f ∈ fields, P f.2) → P (.obj fields)) (v : Json) :
    P v :=
  match v with
  | .null => hnull
  | .bool b => hbool b
  | .int n => hint n
  | .real x => hreal x
  | .str s => hstr s
  | .arr items => harr items fun v _ =>
      induct hnull hbool hint hreal hstr harr hobj v
  | .obj fields => hobj fields fun f _ =>
      induct hnull hbool hint hreal hstr harr hobj f.2
termination_by v
decreasing_by
  · have h := List.sizeOf_lt_of_mem ‹v ∈ items›
    simp only [Json.arr.sizeOf_spec]
    omega
  · have h := List.sizeOf_lt_of_mem ‹f ∈ fields›
    obtain ⟨k, w⟩ := f
    simp only [Prod.mk.sizeOf_spec] at h
    simp only [Json.obj.sizeOf_spec]
    omega

mutual

/-- How deeply values are nested, the value itself counted. -/
def depth : Json → Nat
  | .arr items => depthItems items + 1
  | .obj fields => depthMembers fields + 1
  | _ => 1

/-- The depth of the deepest item. -/
def depthItems : List Json → Nat
  | [] => 0
  | v :: rest => max (depth v) (depthItems rest)

/-- The depth of the deepest member. -/
def depthMembers : List (String × Json) → Nat
  | [] => 0
  | (_, v) :: rest => max (depth v) (depthMembers rest)

end

/-- What the text of a double is read as. -/
def receivedReal (extract : Chars → Option Float) (x : Float) : Option Json :=
  if valueToString x = "null" then some .null
  else decodeNumber extract (valueToString x).toList

mutual

/-- What arrives of a value; none if a double in it cannot be read. -/
def received (extract : Chars → Option Float) : Json → Option Json
  | .real x => receivedReal extract x
  | .arr items => (receivedItems extract items).map .arr
  | .obj fields => (receivedMembers extract fields).map .obj
  | v => some v

/-- The items as they arrive, if all of them do. -/
def receivedItems (extract : Chars → Option Float) :
    List Json → Option (List Json)
  | [] => some []
  | v :: rest => (received extract v).bind fun w =>
      (receivedItems extract rest).map (w :: ·)

/-- The members as they arrive, if all of them do. -/
def receivedMembers (extract : Chars → Option Float) :
    List (String × Json) → Option (List (String × Json))
  | [] => some []
  | (k, v) :: rest => (received extract v).bind fun w =>
      (receivedMembers extract rest).map ((k, w) :: ·)

end

/-- The keys of an object, in the order of the map. -/
def Sorted (fields : List (String × Json)) : Prop :=
  fields.Pairwise fun f f' => f.1 < f'.1

/-- A value as the source can have it, with doubles as `P` has them: its
integers have 64 bits, and its objects are maps. -/
inductive Made (P : Float → Prop) : Json → Prop
  | null : Made P .null
  | bool (b : Bool) : Made P (.bool b)
  | int {n : Int} (h : Fits n) : Made P (.int n)
  | real {x : Float} (h : P x) : Made P (.real x)
  | str (s : String) : Made P (.str s)
  | arr {items : List Json} (h : ∀ v ∈ items, Made P v) : Made P (.arr items)
  | obj {fields : List (String × Json)} (hsorted : Sorted fields)
      (h : ∀ f ∈ fields, Made P f.2) : Made P (.obj fields)

/-- A value with any doubles. -/
abbrev Storable : Json → Prop := Made fun _ => True

/-- What the reader makes can be stored. -/
theorem Made.storable {P : Float → Prop} {v : Json} (h : Made P v) :
    Storable v := by
  induction h with
  | null => exact .null
  | bool b => exact .bool b
  | int h => exact .int h
  | real => exact .real trivial
  | str s => exact .str s
  | arr _ ih => exact .arr ih
  | obj hsorted _ ih => exact .obj hsorted ih

-- ================================================================ tokens

/-- No value is written with a space or a bracket that closes first. -/
theorem writeValue_head (v : Json) : ∃ c text, writeValue v = c :: text
    ∧ isSpace c = false ∧ c ≠ ']' := by
  have hnumber {text : Chars} (h : NumberText text) :
      ∃ c rest, text = c :: rest ∧ isSpace c = false ∧ c ≠ ']' := by
    cases h with
    | @mk c ds f e hc =>
        refine ⟨c, ds ++ f ++ e, rfl, isSpace_number hc, ?_⟩
        intro heq
        subst heq
        cases hc
  cases v with
  | null => exact ⟨_, _, rfl, rfl, by decide⟩
  | bool b => cases b <;> exact ⟨_, _, rfl, rfl, by decide⟩
  | int n => exact hnumber (number_integerToString n)
  | real x =>
      rw [writeValue]
      rcases valueToString_text x with h | h
      · rw [h]
        exact ⟨_, _, rfl, rfl, by decide⟩
      · exact hnumber h
  | str s =>
      rw [writeValue, valueToQuotedStringN_eq]
      exact ⟨_, _, rfl, rfl, by decide⟩
  | arr items =>
      rw [writeValue]
      exact ⟨_, _, rfl, rfl, by decide⟩
  | obj fields =>
      rw [writeValue]
      exact ⟨_, _, rfl, rfl, by decide⟩

/-- Where no comment comes, nothing is skipped. -/
theorem skipCommentTokens_of_ne {fuel : Nat} {text rest : Chars}
    {token : Token} (h : readToken text = (token, rest))
    (hne : token ≠ .comment) :
    skipCommentTokens fuel text = (token, rest) := by
  cases fuel with
  | zero => exact h
  | succ fuel =>
      rw [skipCommentTokens, h]
      exact if_neg hne

/-- A quoted string is read as one token, up to its own quote. -/
theorem readToken_quoted (value rest : Chars) :
    readToken (valueToQuotedStringN value ++ rest)
      = (.string (value.flatMap escapeChar), rest) := by
  rw [valueToQuotedStringN_eq]
  have hassoc : '\x22' :: value.flatMap escapeChar ++ ['\x22'] ++ rest
      = '\x22' :: (value.flatMap escapeChar ++ '\x22' :: rest) := by
    simp only [List.cons_append, List.append_assoc, List.nil_append]
  rw [hassoc, readToken_cons rfl]
  unfold tokenFrom
  simp only [readString_escaped]

/-- A character that belongs to no number stops one. -/
theorem stops_cons {c : Char} (h : c.isDigit = false ∧ c ≠ '.' ∧ c ≠ 'e'
    ∧ c ≠ 'E') (rest : Chars) : Stops (c :: rest) := by
  intro d hd
  injection hd with hd
  exact hd ▸ h

-- =============================================================== reading

/-- Whether a sequence succeeds, and with what. -/
theorem toOption_bind {ε α β : Type} (x : Except ε α) (f : α → Except ε β) :
    (x >>= f).toOption = x.toOption.bind fun a => (f a).toOption := by
  cases x <;> rfl

/-- Whether a decoded token succeeds, and with what. -/
theorem toOption_decoded {α : Type} (x : Option α) (text : Chars) :
    (decoded x text).toOption = x.map (·, text) := by
  cases x <;> rfl

section Reading

variable {extract : Chars → Option Float}
  {value : Chars → Except Failure (Json × Chars)} {g : Json → Option Json}
  {fuel : Nat}

/-- A reader of values reads the text of this one. -/
def Reads (value : Chars → Except Failure (Json × Chars))
    (g : Json → Option Json) (v : Json) : Prop :=
  ∀ rest, Stops rest →
    (value (writeValue v ++ rest)).toOption = (g v).map (·, rest)

/-- Items that are read one by one are read in a row, up to the bracket. -/
theorem readItems_write {items : List Json} (hne : items ≠ [])
    (hvalue : ∀ v ∈ items, Reads value g v) {n : Nat}
    (hn : items.length ≤ n) (acc : List Json) (rest : Chars) :
    (readItems value fuel n acc (writeItems items ++ ']' :: rest)).toOption
      = (items.mapM g).map fun ws => (acc ++ ws, rest) := by
  induction items generalizing n acc with
  | nil => exact absurd rfl hne
  | cons v items ih =>
      obtain ⟨n, rfl⟩ : ∃ m, n = m + 1 :=
        ⟨n - 1, by simp only [List.length_cons] at hn; omega⟩
      have hread := hvalue v (List.mem_cons_self ..)
      rw [readItems, toOption_bind, List.mapM_cons]
      by_cases hlast : items = []
      · subst hlast
        have htext : writeItems [v] ++ ']' :: rest
            = writeValue v ++ ']' :: rest := by simp [writeItems]
        have hend : skipCommentTokens fuel (']' :: rest) = (.arrayEnd, rest) :=
          skipCommentTokens_of_ne rfl (by decide)
        rw [htext, hread _ (stops_cons (by decide) rest)]
        cases g v with
        | none => rfl
        | some w =>
            simp only [Option.map_some, Option.bind_some, hend]
            rfl
      · have htext : writeItems (v :: items) ++ ']' :: rest
            = writeValue v ++ ',' :: (writeItems items ++ ']' :: rest) := by
          simp [writeItems, hlast]
        have hcomma : skipCommentTokens fuel
            (',' :: (writeItems items ++ ']' :: rest))
            = (.arraySeparator, writeItems items ++ ']' :: rest) :=
          skipCommentTokens_of_ne rfl (by decide)
        rw [htext, hread _ (stops_cons (by decide) _)]
        cases g v with
        | none => rfl
        | some w =>
            have htail := ih hlast (n := n)
              (fun u hu => hvalue u (List.mem_cons_of_mem _ hu))
              (Nat.le_of_succ_le_succ hn) (acc ++ [w])
            simp only [Option.map_some, Option.bind_some, hcomma, htail]
            cases items.mapM g with
            | none => rfl
            | some ws => simp

/-- The first item begins neither with a space nor with the bracket. -/
theorem writeItems_head {items : List Json} (hne : items ≠ [])
    (rest : Chars) : ∃ c text, writeItems items ++ rest = c :: text
      ∧ isSpace c = false ∧ c ≠ ']' := by
  obtain ⟨v, items, rfl⟩ := List.exists_cons_of_ne_nil hne
  obtain ⟨c, text, heq, hspace, hc⟩ := writeValue_head v
  refine ⟨c, text ++ (if items.isEmpty then [] else ',' :: writeItems items)
    ++ rest, ?_, hspace, hc⟩
  rw [writeItems, heq]
  rfl

/-- A written array is read back if each of its items is. -/
theorem readArray_write {items : List Json}
    (hvalue : ∀ v ∈ items, Reads value g v) (hn : items.length ≤ fuel)
    (rest : Chars) :
    (readArray value fuel (writeItems items ++ ']' :: rest)).toOption
      = (items.mapM g).map (·, rest) := by
  by_cases hne : items = []
  · subst hne
    rfl
  · obtain ⟨c, text, heq, hspace, hc⟩ := writeItems_head hne (']' :: rest)
    have hskip : skipSpaces (writeItems items ++ ']' :: rest)
        = writeItems items ++ ']' :: rest := by
      rw [heq]
      exact List.dropWhile_cons_of_neg (by simp [hspace])
    have hitems : (readItems value fuel _ _ _).toOption = _ :=
      readItems_write hne hvalue hn [] rest
    unfold readArray
    rw [hskip]
    split
    · rename_i hbracket
      exact absurd (List.cons.inj (heq.symm.trans hbracket)).1 hc
    · exact hitems

-- =============================================================== members

/-- A name above all others is put at the end. -/
theorem assign_last {fields : List (String × Json)} {key : String} {v : Json}
    (h : ∀ f ∈ fields, f.1 < key) :
    assign key v fields = fields ++ [(key, v)] := by
  induction fields with
  | nil => rfl
  | cons f fields ih =>
      obtain ⟨k, x⟩ := f
      have hlt : k < key := h (k, x) (List.mem_cons_self ..)
      have hne : k ≠ key := fun heq => String.lt_irrefl key (heq ▸ hlt)
      rw [assign, if_neg hne, if_neg (String.lt_asymm hlt),
        ih fun f hf => h f (List.mem_cons_of_mem _ hf)]
      rfl

/-- After its name a member is read back if its value is. -/
theorem readMember_write {v : Json} (hvalue : Reads value g v) {token : Token}
    {c : Char} {after : Chars} (hstop : Stops (c :: after))
    (htoken : readToken (c :: after) = (token, after))
    (hends : token.endsMember = true) (hne : token ≠ .comment) :
    (readMember value fuel (':' :: (writeValue v ++ c :: after))).toOption
      = (g v).map fun w => (w, token, after) := by
  have hcolon : readToken (':' :: (writeValue v ++ c :: after))
      = (.memberSeparator, writeValue v ++ c :: after) := rfl
  unfold readMember
  simp only [hcolon, ne_eq, not_true_eq_false, if_false]
  show (value (writeValue v ++ c :: after) >>= _).toOption = _
  rw [toOption_bind, hvalue _ hstop]
  cases g v with
  | none => rfl
  | some w =>
      simp only [Option.map_some, Option.bind_some, htoken, hends,
        skipCommentTokens_of_ne htoken hne, Bool.not_true,
        Bool.false_eq_true, if_false]
      rfl

/-- One turn of the loop over the members. -/
theorem readMembers_turn {k : String} {v : Json} (hvalue : Reads value g v)
    {token : Token} {c : Char} {after : Chars} (hstop : Stops (c :: after))
    (htoken : readToken (c :: after) = (token, after))
    (hends : token.endsMember = true) (hne : token ≠ .comment) (n : Nat)
    (acc : List (String × Json)) (name : String) :
    (readMembers value fuel (n + 1) acc name
        (valueToQuotedStringN k.toList
          ++ ':' :: (writeValue v ++ c :: after))).toOption
      = (g v).bind fun w =>
          (if token = .objectEnd then pure (assign k w acc, after)
            else readMembers value fuel n (assign k w acc) k after).toOption := by
  have hname : skipCommentTokens fuel (valueToQuotedStringN k.toList
      ++ ':' :: (writeValue v ++ c :: after))
      = (.string (k.toList.flatMap escapeChar),
        ':' :: (writeValue v ++ c :: after)) :=
    skipCommentTokens_of_ne (readToken_quoted _ _) (by simp)
  have hmember : (readMember value fuel _).toOption = _ :=
    readMember_write hvalue hstop htoken hends hne
  rw [readMembers, hname]
  show (decoded (decodeString _) _ >>= _).toOption = _
  rw [toOption_bind, toOption_decoded, decodeString_escaped]
  show (readMember value fuel _ >>= _).toOption = _
  rw [toOption_bind, hmember]
  cases g v with
  | none => rfl
  | some w => rfl

/-- Members in order are read in a row, up to the brace, each put after those
before it. -/
theorem readMembers_write {fields : List (String × Json)}
    (hne : fields ≠ []) (hsorted : Sorted fields)
    (hvalue : ∀ f ∈ fields, Reads value g f.2) {n : Nat}
    (hn : fields.length ≤ n) (acc : List (String × Json))
    (hacc : ∀ a ∈ acc, ∀ f ∈ fields, a.1 < f.1) (name : String)
    (rest : Chars) :
    (readMembers value fuel n acc name
        (writeMembers fields ++ '\x7d' :: rest)).toOption
      = (fields.mapM fun f => (g f.2).map (f.1, ·)).map
          fun ws => (acc ++ ws, rest) := by
  induction fields generalizing n acc name with
  | nil => exact absurd rfl hne
  | cons f fields ih =>
      obtain ⟨k, v⟩ := f
      obtain ⟨n, rfl⟩ : ∃ m, n = m + 1 :=
        ⟨n - 1, by simp only [List.length_cons] at hn; omega⟩
      have hread : Reads value g v := hvalue (k, v) (List.mem_cons_self ..)
      have hassign (w : Json) : assign k w acc = acc ++ [(k, w)] :=
        assign_last fun a ha => hacc a ha (k, v) (List.mem_cons_self ..)
      rw [List.mapM_cons]
      by_cases hlast : fields = []
      · subst hlast
        have htext : writeMembers [(k, v)] ++ '\x7d' :: rest
            = valueToQuotedStringN k.toList
              ++ ':' :: (writeValue v ++ '\x7d' :: rest) := by
          simp [writeMembers]
        rw [htext, readMembers_turn hread (stops_cons (by decide) rest)
          (rfl : readToken ('\x7d' :: rest) = (.objectEnd, rest)) rfl
          (by decide)]
        show (g v).bind _ = (((g v).map (k, ·)).bind _).map _
        cases g v with
        | none => rfl
        | some w =>
            show some (assign k w acc, rest) = _
            rw [hassign]
            rfl
      · have htext : writeMembers ((k, v) :: fields) ++ '\x7d' :: rest
            = valueToQuotedStringN k.toList ++ ':' :: (writeValue v
              ++ ',' :: (writeMembers fields ++ '\x7d' :: rest)) := by
          simp [writeMembers, hlast]
        have hrest := List.pairwise_cons.1 hsorted
        rw [htext, readMembers_turn hread (stops_cons (by decide) _)
          (rfl : readToken (',' :: (writeMembers fields ++ '\x7d' :: rest))
            = (.arraySeparator, _)) rfl (by decide)]
        show (g v).bind _ = (((g v).map (k, ·)).bind _).map _
        cases g v with
        | none => rfl
        | some w =>
            have hbelow : ∀ a ∈ acc ++ [(k, w)], ∀ f ∈ fields, a.1 < f.1 := by
              intro a ha f hf
              rcases List.mem_append.1 ha with ha | ha
              · exact hacc a ha f (List.mem_cons_of_mem _ hf)
              · rw [List.mem_singleton.1 ha]
                exact hrest.1 f hf
            have htail := ih hlast hrest.2
              (fun u hu => hvalue u (List.mem_cons_of_mem _ hu))
              (Nat.le_of_succ_le_succ hn) (acc ++ [(k, w)]) hbelow k
            show (readMembers value fuel n (assign k w acc) k _).toOption = _
            rw [hassign, htail]
            show _ = (Option.bind (fields.mapM fun f => (g f.2).map (f.1, ·))
              _).map _
            cases fields.mapM fun f => (g f.2).map (f.1, ·) with
            | none => rfl
            | some ws => simp

-- ================================================================= whole

variable (extract) in
/-- What a value is read as inside `limit` less one others. -/
def readable (limit : Nat) (v : Json) : Option Json :=
  if depth v ≤ limit then received extract v else none

/-- All items are readable if none is too deep and all arrive. -/
theorem mapM_readable (limit : Nat) (items : List Json) :
    items.mapM (readable extract limit)
      = if depthItems items ≤ limit then receivedItems extract items
        else none := by
  induction items with
  | nil => rfl
  | cons v items ih =>
      rw [List.mapM_cons, ih]
      show Option.bind (readable extract limit v) _ = _
      unfold readable
      by_cases hv : depth v ≤ limit
      · by_cases hitems : depthItems items ≤ limit
        · have hboth : depthItems (v :: items) ≤ limit := max_le hv hitems
          rw [if_pos hv, if_pos hitems, if_pos hboth, receivedItems]
          cases received extract v with
          | none => rfl
          | some w => cases receivedItems extract items <;> rfl
        · have hboth : ¬ depthItems (v :: items) ≤ limit :=
            fun h => hitems (le_trans (le_max_right _ _) h)
          rw [if_neg hitems, if_neg hboth]
          cases (if depth v ≤ limit then received extract v else none) <;> rfl
      · have hboth : ¬ depthItems (v :: items) ≤ limit :=
          fun h => hv (le_trans (le_max_left _ _) h)
        rw [if_neg hv, if_neg hboth]
        rfl

/-- The same for members. -/
theorem mapM_readable_members (limit : Nat) (fields : List (String × Json)) :
    (fields.mapM fun f => (readable extract limit f.2).map (f.1, ·))
      = if depthMembers fields ≤ limit then receivedMembers extract fields
        else none := by
  induction fields with
  | nil => rfl
  | cons f fields ih =>
      obtain ⟨k, v⟩ := f
      rw [List.mapM_cons, ih]
      show Option.bind ((readable extract limit v).map (k, ·)) _ = _
      unfold readable
      by_cases hv : depth v ≤ limit
      · by_cases hfields : depthMembers fields ≤ limit
        · have hboth : depthMembers ((k, v) :: fields) ≤ limit :=
            max_le hv hfields
          rw [if_pos hv, if_pos hfields, if_pos hboth, receivedMembers]
          cases received extract v with
          | none => rfl
          | some w => cases receivedMembers extract fields <;> rfl
        · have hboth : ¬ depthMembers ((k, v) :: fields) ≤ limit :=
            fun h => hfields (le_trans (le_max_right _ _) h)
          rw [if_neg hfields, if_neg hboth]
          cases (if depth v ≤ limit then received extract v else none) <;> rfl
      · have hboth : ¬ depthMembers ((k, v) :: fields) ≤ limit :=
          fun h => hv (le_trans (le_max_left _ _) h)
        rw [if_neg hv, if_neg hboth]
        rfl

/-- No value is written as nothing. -/
theorem length_writeValue_pos (v : Json) : 1 ≤ (writeValue v).length := by
  obtain ⟨c, text, heq, _⟩ := writeValue_head v
  rw [heq]
  exact Nat.le_add_left 1 _

/-- An array has room for its elements. -/
theorem length_writeItems (items : List Json) :
    items.length ≤ (writeItems items).length
      ∧ ∀ v ∈ items, (writeValue v).length ≤ (writeItems items).length := by
  induction items with
  | nil => exact ⟨Nat.le_refl 0, fun v hv => absurd hv (List.not_mem_nil)⟩
  | cons v items ih =>
      obtain ⟨hlen, hall⟩ := ih
      have hpos := length_writeValue_pos v
      have hwhole : (writeValue v).length + (writeItems items).length
          ≤ (writeItems (v :: items)).length := by
        cases items with
        | nil => simp [writeItems]
        | cons u items => simp [writeItems]
      constructor
      · simp only [List.length_cons]
        omega
      · intro u hu
        rcases List.mem_cons.1 hu with rfl | hu
        · omega
        · have := hall u hu
          omega

/-- The text of an object is long enough to be fuel for its members. -/
theorem length_writeMembers (fields : List (String × Json)) :
    fields.length ≤ (writeMembers fields).length
      ∧ ∀ f ∈ fields,
        (writeValue f.2).length ≤ (writeMembers fields).length := by
  induction fields with
  | nil => exact ⟨Nat.le_refl 0, fun v hv => absurd hv (List.not_mem_nil)⟩
  | cons f fields ih =>
      obtain ⟨k, v⟩ := f
      obtain ⟨hlen, hall⟩ := ih
      have hpos := length_writeValue_pos v
      have hwhole : (writeValue v).length + (writeMembers fields).length
          ≤ (writeMembers ((k, v) :: fields)).length := by
        cases fields with
        | nil =>
            simp [writeMembers]
            omega
        | cons u fields =>
            simp [writeMembers]
            omega
      constructor
      · simp only [List.length_cons]
        omega
      · intro u hu
        rcases List.mem_cons.1 hu with rfl | hu
        · show (writeValue v).length ≤ _
          omega
        · have := hall u hu
          omega

/-- After a token that is no comment, the value begins with it. -/
theorem readValue_token {limit : Nat} {text rest : Chars} {token : Token}
    (h : readToken text = (token, rest)) (hne : token ≠ .comment) :
    readValue extract fuel (limit + 1) text
      = valueFrom extract fuel (readValue extract fuel limit) token rest := by
  rw [readValue, skipCommentTokens_of_ne h hne]

/-- A value that has no others in it is read from one token. -/
theorem reads_scalar {v : Json} (token : Token) (hdepth : depth v = 1)
    (htoken : ∀ rest, Stops rest →
      readToken (writeValue v ++ rest) = (token, rest))
    (hne : token ≠ .comment)
    (hread : ∀ value rest, (valueFrom extract fuel value token rest).toOption
      = (received extract v).map (·, rest)) (limit : Nat) :
    Reads (readValue extract fuel limit) (readable extract limit) v := by
  intro rest hrest
  unfold readable
  cases limit with
  | zero =>
      rw [hdepth]
      rfl
  | succ limit =>
      rw [readValue_token (htoken rest hrest) hne, hread, hdepth,
        if_pos (Nat.le_add_left 1 limit)]

/-- An array is read back with the depth that its items need and one more. -/
theorem reads_array {items : List Json} (hfuel : items.length ≤ fuel)
    (hitems : ∀ limit, ∀ v ∈ items,
      Reads (readValue extract fuel limit) (readable extract limit) v)
    (limit : Nat) :
    Reads (readValue extract fuel limit) (readable extract limit)
      (.arr items) := by
  intro rest _
  unfold readable
  cases limit with
  | zero => rfl
  | succ limit =>
      have htext : writeValue (.arr items) ++ rest
          = '[' :: (writeItems items ++ ']' :: rest) := by
        simp [writeValue]
      have hread := readArray_write (hitems limit) hfuel rest
      rw [htext, readValue_token (rfl : readToken ('[' :: _) = (.arrayBegin, _))
        (by decide)]
      show (readArray (readValue extract fuel limit) fuel _ >>= _).toOption = _
      rw [toOption_bind, hread, mapM_readable, depth, received]
      by_cases hdepth : depthItems items ≤ limit
      · rw [if_pos hdepth, if_pos (Nat.succ_le_succ hdepth)]
        cases receivedItems extract items <;> rfl
      · rw [if_neg hdepth, if_neg fun h => hdepth (Nat.le_of_succ_le_succ h)]
        rfl

/-- An object is read back likewise. -/
theorem reads_object {fields : List (String × Json)}
    (hsorted : Sorted fields) (hfuel : fields.length ≤ fuel) (hpos : 1 ≤ fuel)
    (hfields : ∀ limit, ∀ f ∈ fields,
      Reads (readValue extract fuel limit) (readable extract limit) f.2)
    (limit : Nat) :
    Reads (readValue extract fuel limit) (readable extract limit)
      (.obj fields) := by
  intro rest _
  unfold readable
  cases limit with
  | zero => rfl
  | succ limit =>
      have htext : writeValue (.obj fields) ++ rest
          = '\x7b' :: (writeMembers fields ++ '\x7d' :: rest) := by
        simp [writeValue]
      have hread : (readMembers (readValue extract fuel limit) fuel fuel [] ""
          (writeMembers fields ++ '\x7d' :: rest)).toOption
          = (fields.mapM fun f => (readable extract limit f.2).map
              (f.1, ·)).map (·, rest) := by
        by_cases hne : fields = []
        · obtain ⟨n, rfl⟩ : ∃ n, fuel = n + 1 := ⟨fuel - 1, by omega⟩
          subst hne
          show (readMembers _ (n + 1) (n + 1) [] "" ('\x7d' :: rest)).toOption
            = some ([], rest)
          rw [readMembers, skipCommentTokens_of_ne
            (rfl : readToken ('\x7d' :: rest) = (.objectEnd, rest))
            (by decide)]
          rfl
        · exact readMembers_write hne hsorted (hfields limit) hfuel []
            (fun a ha => absurd ha List.not_mem_nil) "" rest
      rw [htext, readValue_token
        (rfl : readToken ('\x7b' :: _) = (.objectBegin, _)) (by decide)]
      show (readMembers (readValue extract fuel limit) fuel fuel [] "" _
        >>= _).toOption = _
      rw [toOption_bind, hread, mapM_readable_members, depth, received]
      by_cases hdepth : depthMembers fields ≤ limit
      · rw [if_pos hdepth, if_pos (Nat.succ_le_succ hdepth)]
        cases receivedMembers extract fields <;> rfl
      · rw [if_neg hdepth, if_neg fun h => hdepth (Nat.le_of_succ_le_succ h)]
        rfl

/-- A value is read up to what stands behind it. -/
theorem reads {v : Json} (hv : Storable v)
    (hfuel : (writeValue v).length ≤ fuel) (limit : Nat) :
    Reads (readValue extract fuel limit) (readable extract limit) v := by
  induction v using induct generalizing limit with
  | hnull =>
      exact reads_scalar .null rfl (fun _ _ => rfl) (by decide)
        (fun _ _ => rfl) limit
  | hbool b =>
      cases b with
      | true =>
          exact reads_scalar .true_ rfl (fun _ _ => rfl) (by decide)
            (fun _ _ => rfl) limit
      | false =>
          exact reads_scalar .false_ rfl (fun _ _ => rfl) (by decide)
            (fun _ _ => rfl) limit
  | hint n =>
      cases hv with
      | int hn =>
          apply reads_scalar (v := .int n) (.number (integerToString n)) rfl
            (fun rest hrest => (number_integerToString n).readToken hrest)
            (by simp)
          intro value rest
          show (decoded (decodeNumber extract _) rest).toOption = _
          rw [toOption_decoded, decodeNumber_integer extract hn]
          rfl
  | hreal x =>
      rcases valueToString_text x with htext | htext
      · apply reads_scalar .null rfl _ (by decide)
        · intro value rest
          rw [received, receivedReal, if_pos htext]
          rfl
        · intro rest _
          rw [writeValue, htext]
          rfl
      · have hne : valueToString x ≠ "null" := by
          intro hnull
          rw [hnull] at htext
          generalize htoken : "null".toList = text at htext
          cases htext with
          | mk hc =>
              injection htoken with hhead
              subst hhead
              cases hc
        apply reads_scalar (v := .real x) (.number (valueToString x).toList)
          rfl
          (fun rest hrest => htext.readToken hrest) (by simp)
        intro value rest
        show (decoded (decodeNumber extract _) rest).toOption = _
        rw [toOption_decoded, received, receivedReal, if_neg hne]
  | hstr s =>
      apply reads_scalar (v := .str s)
        (.string (s.toList.flatMap escapeChar)) rfl
        (fun rest _ => readToken_quoted s.toList rest) (by simp)
      intro value rest
      show (decoded ((decodeString _).map Json.str) rest).toOption = _
      rw [toOption_decoded, decodeString_escaped]
      rfl
  | harr items ih =>
      cases hv with
      | arr hitems =>
          obtain ⟨hlen, hall⟩ := length_writeItems items
          have hroom : (writeItems items).length + 2 ≤ fuel := by
            simp only [writeValue, List.length_append, List.length_cons,
              List.length_nil] at hfuel
            omega
          exact reads_array (by omega) (fun limit v hmem =>
            ih v hmem (hitems v hmem)
              (by have := hall v hmem; omega) limit) limit
  | hobj fields ih =>
      cases hv with
      | obj hsorted hfields =>
          obtain ⟨hlen, hall⟩ := length_writeMembers fields
          have hroom : (writeMembers fields).length + 2 ≤ fuel := by
            simp only [writeValue, List.length_append, List.length_cons,
              List.length_nil] at hfuel
            omega
          exact reads_object hsorted (by omega) (by omega) (fun limit f hmem =>
            ih f hmem (hfields f hmem)
              (by have := hall f hmem; omega) limit) limit

end Reading

/-- What is written is read as what is readable of it, at the depth the reader
has. -/
theorem parse_write (extract : Chars → Option Float) {v : Json}
    (hv : Storable v) :
    (parse extract (write v)).toOption = readable extract stackLimit v := by
  have hroom : (writeValue v).length ≤ (write v).length + 1 := by
    simp [write]
    omega
  have hread : (readValue extract ((write v).length + 1) stackLimit
      (write v)).toOption = (readable extract stackLimit v).map (·, ['\n']) :=
    reads hv hroom stackLimit ['\n'] (stops_cons (by decide) [])
  have hmap {α β : Type} (x : Except Failure α) (f : α → β) :
      (x.map f).toOption = x.toOption.map f := by cases x <;> rfl
  unfold parse
  rw [hmap, hread]
  cases readable extract stackLimit v <;> rfl

/-- A value that was written is read back, with its doubles as their texts
are read, exactly if it is nested at most as deeply as the reader allows
and its doubles can be read. -/
theorem parse_write_iff (extract : Chars → Option Float) {v w : Json}
    (hv : Storable v) :
    parse extract (write v) = .ok w
      ↔ depth v ≤ stackLimit ∧ received extract v = some w := by
  have hok : parse extract (write v) = .ok w
      ↔ readable extract stackLimit v = some w := by
    rw [← parse_write extract hv]
    cases parse extract (write v) with
    | error e => simp [Except.toOption]
    | ok u => simp [Except.toOption]
  rw [hok, readable]
  by_cases hdepth : depth v ≤ stackLimit
  · simp [hdepth]
  · simp [hdepth]

/-- An array with a negative number and a string with escapes comes back. -/
theorem parse_write_array :
    parse (fun _ => none) (write (.arr [.int (-5), .str "\"\n"]))
        = .ok (.arr [.int (-5), .str "\"\n"])
      ↔ depth (.arr [.int (-5), .str "\"\n"]) ≤ stackLimit
        ∧ received (fun _ => none) (.arr [.int (-5), .str "\"\n"])
          = some (.arr [.int (-5), .str "\"\n"]) := by
  apply parse_write_iff
  apply Made.arr
  simp only [List.mem_cons, List.not_mem_nil, or_false, forall_eq_or_imp,
    forall_eq]
  exact ⟨.int ⟨by decide, by decide⟩, .str _⟩

end Json

end BigDataExpress

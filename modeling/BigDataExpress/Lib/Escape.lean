/-
Texts in which a backslash takes the meaning from some characters.

A part of a text goes up to the first of its end characters that has no
backslash before it. A backslash is dropped where it stands before one of
the characters that it escapes, and is a character like any other
everywhere else; so what the last backslash of a part means depends on
what follows the part. `Escaped` relates a part as it is written to what
is read of it, and `scan` reads one (`scan_eq_some`).

From the front a part is read in one way. The lemmas on alignment compare
two ways to read a text from its end: what is written and what is read
there have the same characters, hence one is a suffix of the other, and
neither can be longer. A longer one would have an end character in it,
and that has a backslash before it (`Escaped.guarded`), where what stands
before the other one does not end in a backslash.
-/
import BigDataExpress.Lib.Text

namespace Text

-- ================================================================= parts

/-- Where a part ends, and what a backslash escapes in it. -/
structure Delimiters where
  ends : Char → Bool
  escapes : Char → Bool
  escapes_of_ends : ∀ c, ends c = true → escapes c = true
  ends_backslash : ends '\\' = false

namespace Delimiters

variable (d : Delimiters)

/-- A backslash before this text stands for itself. -/
def Literally (text : Chars) : Prop :=
  ∃ c, text.head? = some c ∧ d.escapes c = false

/-- A part as it is written, and as it is read. -/
inductive Escaped : Chars → Chars → Prop
  | nil : Escaped [] []
  | escape {c : Char} {raw s : Chars} (hc : d.escapes c = true)
      (h : Escaped raw s) : Escaped ('\\' :: c :: raw) (c :: s)
  | plain {c : Char} {raw s : Chars} (hc : d.ends c = false)
      (hnext : c = '\\' → d.Literally raw) (h : Escaped raw s) :
      Escaped (c :: raw) (c :: s)

/-- The part at the beginning of a text, as it is read, the character that
ends it, and the text after that. -/
def scan : Chars → Option (Chars × Char × Chars)
  | [] => none
  | [c] => if d.ends c then some ([], c, []) else none
  | c :: e :: text =>
      if c = '\\' ∧ d.escapes e = true then
        (scan text).map fun r => (e :: r.1, r.2)
      else if d.ends c then some ([], c, e :: text)
      else (scan (e :: text)).map fun r => (c :: r.1, r.2)

variable {d} {raw s : Chars} {c : Char} {rest : Chars}

theorem scan_end (hc : d.ends c = true) : d.scan (c :: rest) = some ([], c, rest) := by
  have hne : c ≠ '\\' := by
    intro heq
    rw [heq, d.ends_backslash] at hc
    cases hc
  cases rest with
  | nil => rw [scan, if_pos hc]
  | cons e rest =>
      have hno : ¬ (c = '\\' ∧ d.escapes e = true) := fun h => hne h.1
      rw [scan, if_neg hno, if_pos hc]

theorem scan_plain {e : Char} (hc : d.ends c = false)
    (hnext : c = '\\' → d.escapes e = false) :
    d.scan (c :: e :: rest)
      = (d.scan (e :: rest)).map fun r => (c :: r.1, r.2) := by
  have hno : ¬ (c = '\\' ∧ d.escapes e = true) := by
    intro h
    rw [hnext h.1] at h
    cases h.2
  rw [scan, if_neg hno, if_neg (by simp [hc])]

/-- What is written is read. -/
theorem Escaped.scan (h : d.Escaped raw s) (hc : d.ends c = true) :
    d.scan (raw ++ c :: rest) = some (s, c, rest) := by
  induction h with
  | nil => exact scan_end hc
  | @escape e raw s he _ ih =>
      show d.scan ('\\' :: e :: (raw ++ c :: rest)) = _
      rw [Delimiters.scan, if_pos ⟨rfl, he⟩, ih]
      rfl
  | @plain e raw s he hnext _ ih =>
      cases raw with
      | nil =>
          have hback : e ≠ '\\' := by
            intro heq
            obtain ⟨_, hhead, _⟩ := hnext heq
            cases hhead
          show d.scan (e :: c :: rest) = _
          rw [scan_plain he fun heq => absurd heq hback]
          show (d.scan ([] ++ c :: rest)).map _ = _
          rw [ih]
          rfl
      | cons f raw =>
          show d.scan (e :: f :: (raw ++ c :: rest)) = _
          rw [scan_plain he]
          · show (d.scan ((f :: raw) ++ c :: rest)).map _ = _
            rw [ih]
            rfl
          · intro heq
            obtain ⟨_, hhead, hf⟩ := hnext heq
            injection hhead with hhead
            exact hhead ▸ hf

/-- What is read was written. -/
theorem exists_of_scan {text : Chars} (h : d.scan text = some (s, c, rest)) :
    d.ends c = true ∧ ∃ raw, d.Escaped raw s ∧ text = raw ++ c :: rest := by
  fun_induction Delimiters.scan d text generalizing s with
  | case1 => cases h
  | case2 e he =>
      injection h with h
      injection h with hs h
      injection h with hc hrest
      subst hs hc hrest
      exact ⟨he, [], .nil, rfl⟩
  | case3 => cases h
  | case4 e f text hesc ih =>
      obtain ⟨⟨s', r⟩, hscan, heq⟩ := Option.map_eq_some_iff.1 h
      injection heq with hs hr
      subst hs hr
      obtain ⟨hc, raw, hraw, rfl⟩ := ih hscan
      obtain ⟨rfl, hf⟩ := hesc
      exact ⟨hc, '\\' :: f :: raw, .escape hf hraw, rfl⟩
  | case5 e f text _ he =>
      injection h with h
      injection h with hs h
      injection h with hc hrest
      subst hs hc hrest
      exact ⟨he, [], .nil, rfl⟩
  | case6 e f text hesc he ih =>
      obtain ⟨⟨s', r⟩, hscan, heq⟩ := Option.map_eq_some_iff.1 h
      injection heq with hs hr
      subst hs hr
      obtain ⟨hc, raw, hraw, htext⟩ := ih hscan
      have he : d.ends e = false := by simpa using he
      refine ⟨hc, e :: raw, .plain he ?_ hraw, by rw [htext]; rfl⟩
      rintro rfl
      -- the next character is not escaped, and does not end the part
      have hf : d.escapes f = false := by simpa using hesc
      cases raw with
      | nil =>
          injection htext with hfc _
          rw [hfc, d.escapes_of_ends c hc] at hf
          cases hf
      | cons g raw =>
          injection htext with hfg _
          exact ⟨g, rfl, hfg ▸ hf⟩

theorem scan_eq_some {text : Chars} :
    d.scan text = some (s, c, rest)
      ↔ d.ends c = true ∧ ∃ raw, d.Escaped raw s ∧ text = raw ++ c :: rest := by
  constructor
  · exact exists_of_scan
  · rintro ⟨hc, raw, hraw, rfl⟩
    exact hraw.scan hc

-- ===================================================== what a part is like

namespace Escaped

theorem length_le (h : d.Escaped raw s) : s.length ≤ raw.length := by
  induction h with
  | nil => exact Nat.le_refl 0
  | escape _ _ ih =>
      simp only [List.length_cons]
      omega
  | plain _ _ _ ih =>
      simp only [List.length_cons]
      omega

theorem nil_iff (h : d.Escaped raw s) : raw = [] ↔ s = [] := by
  cases h <;> simp

/-- An end character within a part has a backslash before it. -/
theorem guarded (h : d.Escaped raw s) {a b : Chars} (hraw : raw = a ++ c :: b)
    (hc : d.ends c = true) : a.getLast? = some '\\' := by
  induction h generalizing a with
  | nil => cases a <;> cases hraw
  | @escape e raw s _ _ ih =>
      cases a with
      | nil =>
          injection hraw with hback _
          rw [← hback, d.ends_backslash] at hc
          cases hc
      | cons f a =>
          injection hraw with hf hraw
          subst hf
          cases a with
          | nil => rfl
          | cons g a =>
              injection hraw with _ hraw
              rw [List.getLast?_cons, List.getLast?_cons, ih hraw]
              rfl
  | @plain e raw s he _ _ ih =>
      cases a with
      | nil =>
          injection hraw with heq _
          rw [← heq, he] at hc
          cases hc
      | cons f a =>
          injection hraw with _ hraw
          rw [List.getLast?_cons, ih hraw]
          rfl

/-- If backslashes are not escaped, no part ends in one. -/
theorem getLast_ne (h : d.Escaped raw s) (hback : d.escapes '\\' = false) :
    raw.getLast? ≠ some '\\' := by
  induction h with
  | nil => exact fun h => nomatch h
  | @escape c raw s hc _ ih =>
      cases raw with
      | nil =>
          intro hlast
          injection hlast with hlast
          subst hlast
          rw [hback] at hc
          cases hc
      | cons e raw => simpa [List.getLast?_cons_cons] using ih
  | @plain c raw s _ hnext _ ih =>
      cases raw with
      | nil =>
          intro hlast
          injection hlast with hlast
          obtain ⟨_, hhead, _⟩ := hnext hlast
          cases hhead
      | cons e raw => simpa [List.getLast?_cons_cons] using ih

end Escaped

/-- The parts that are read as they are written. -/
theorem escaped_self :
    d.Escaped s s ↔ (∀ c ∈ s, d.ends c = false)
      ∧ ∀ a b, s = a ++ '\\' :: b → d.Literally b := by
  induction s with
  | nil => simp [Escaped.nil]
  | cons c s ih =>
      constructor
      · intro h
        cases h with
        | escape _ h =>
            have hlen := h.length_le
            rw [List.length_cons] at hlen
            omega
        | plain hc hnext h =>
            obtain ⟨hends, hlit⟩ := ih.1 h
            refine ⟨?_, ?_⟩
            · intro e he
              obtain rfl | he := List.mem_cons.1 he
              · exact hc
              · exact hends e he
            · intro a b hab
              cases a with
              | nil =>
                  injection hab with hback hb
                  exact hb ▸ hnext hback
              | cons x a =>
                  injection hab with _ hab
                  exact hlit a b hab
      · rintro ⟨hends, hlit⟩
        refine .plain (hends c (List.mem_cons_self ..)) ?_ (ih.2 ⟨?_, ?_⟩)
        · rintro rfl
          exact hlit [] s rfl
        · exact fun e he => hends e (List.mem_cons_of_mem c he)
        · intro a b hab
          exact hlit (c :: a) b (hab ▸ rfl)

/-- A backslash that is to be read stands neither before what it would
escape nor at the end. -/
theorem literally_iff :
    (∀ a b, s = a ++ '\\' :: b → d.Literally b)
      ↔ (∀ c, d.escapes c = true → ¬ ['\\', c] <:+: s)
        ∧ s.getLast? ≠ some '\\' := by
  constructor
  · intro h
    refine ⟨?_, ?_⟩
    · rintro c hc ⟨a, b, rfl⟩
      obtain ⟨e, hhead, he⟩ := h a (c :: b) (by simp)
      injection hhead with hhead
      rw [hhead, he] at hc
      cases hc
    · intro hlast
      obtain ⟨a, rfl⟩ := List.getLast?_eq_some_iff.1 hlast
      obtain ⟨_, hhead, _⟩ := h a [] rfl
      cases hhead
  · rintro ⟨hpair, hlast⟩ a b rfl
    cases b with
    | nil => exact absurd List.getLast?_concat hlast
    | cons c b =>
        refine ⟨c, rfl, ?_⟩
        cases hc : d.escapes c with
        | false => rfl
        | true => exact absurd ⟨a, b, by simp⟩ (hpair c hc)

theorem escapes_backslash (hesc : ∀ c, d.escapes c = true → d.ends c = true) :
    d.escapes '\\' = false := by
  cases h : d.escapes '\\' with
  | false => rfl
  | true =>
      have hends := hesc _ h
      rw [d.ends_backslash] at hends
      cases hends

/-- What is a part at all, if nothing but the end characters is escaped. -/
theorem exists_escaped (hesc : ∀ c, d.escapes c = true → d.ends c = true) :
    (∃ s, d.Escaped raw s)
      ↔ (∀ a c b, raw = a ++ c :: b → d.ends c = true
          → a.getLast? = some '\\')
        ∧ raw.getLast? ≠ some '\\' := by
  have hback := escapes_backslash hesc
  constructor
  · rintro ⟨s, h⟩
    exact ⟨fun a c b hab hc => h.guarded hab hc, h.getLast_ne hback⟩
  · rintro ⟨hguard, hlast⟩
    have hfirst {c : Char} {text : Chars}
        (h : ∀ a e b, c :: text = a ++ e :: b → d.ends e = true
          → a.getLast? = some '\\') : d.ends c = false := by
      cases hc : d.ends c with
      | false => rfl
      | true =>
          have hnil := h [] c text rfl hc
          cases hnil
    fun_induction Delimiters.scan d raw with
    | case1 => exact ⟨[], .nil⟩
    | case2 c _ | case3 c _ =>
        refine ⟨[c], .plain (hfirst hguard) ?_ .nil⟩
        rintro rfl
        exact absurd rfl hlast
    | case4 c e text hc ih =>
        obtain ⟨rfl, he⟩ := hc
        have hne : e ≠ '\\' := by
          rintro rfl
          rw [hback] at he
          cases he
        obtain ⟨s, hs⟩ := ih (by
          intro a x b hab hx
          have hall := hguard ('\\' :: e :: a) x b (by rw [hab]; rfl) hx
          rw [List.getLast?_cons_cons, List.getLast?_cons] at hall
          cases ha : a.getLast? with
          | none =>
              rw [ha] at hall
              injection hall with hall
              exact absurd hall hne
          | some y =>
              rw [ha] at hall
              exact hall) (by
          intro ht
          apply hlast
          rw [List.getLast?_cons, List.getLast?_cons, ht]
          rfl)
        exact ⟨e :: s, .escape he hs⟩
    | case5 c e text _ hc =>
        rw [hfirst hguard] at hc
        cases hc
    | case6 c e text hc _ ih =>
        obtain ⟨s, hs⟩ := ih (by
          intro a x b hab hx
          have hall := hguard (c :: a) x b (by rw [hab]; rfl) hx
          rw [List.getLast?_cons] at hall
          cases ha : a.getLast? with
          | none =>
              -- the backslash is what stands before this character
              rw [ha] at hall
              injection hall with hall
              rw [List.getLast?_eq_none_iff.1 ha] at hab
              injection hab with hex _
              subst hex
              exact absurd ⟨hall, d.escapes_of_ends e hx⟩ hc
          | some y =>
              rw [ha] at hall
              exact hall) (by rwa [List.getLast?_cons_cons] at hlast)
        refine ⟨c :: s, .plain (hfirst hguard) ?_ hs⟩
        intro heq
        exact ⟨e, rfl, by simpa using fun he => hc ⟨heq, he⟩⟩

-- =============================================================== escaping

/-- Each of some characters is written with a backslash before it. -/
def escaping (p : Char → Bool) (s : Chars) : Chars :=
  s.flatMap fun c => if p c then ['\\', c] else [c]

section escaping

variable {p : Char → Bool}

theorem escaping_cons (c : Char) (s : Chars) :
    escaping p (c :: s)
      = if p c then '\\' :: c :: escaping p s else c :: escaping p s := by
  cases h : p c <;> simp [escaping, h]

/-- No part is longer than what is written with all that is escaped. -/
theorem Escaped.length_escaping (hp : ∀ c, d.escapes c = true → p c = true)
    (h : d.Escaped raw s) : raw.length ≤ (escaping p s).length := by
  induction h with
  | nil => exact Nat.le_refl 0
  | @escape c raw s hc _ ih =>
      rw [escaping_cons, if_pos (hp c hc)]
      simp only [List.length_cons]
      omega
  | @plain c raw s _ _ _ ih =>
      rw [escaping_cons]
      split
      · simp only [List.length_cons]
        omega
      · simp only [List.length_cons]
        omega

theorem escaping_guarded (hback : p '\\' = false) {a b : Chars}
    (hab : escaping p s = a ++ c :: b) (hc : p c = true) :
    a.getLast? = some '\\' := by
  induction s generalizing a with
  | nil => cases a <;> cases hab
  | cons e s ih =>
      rw [escaping_cons] at hab
      split at hab
      · rcases a with _ | ⟨f, _ | ⟨g, a⟩⟩
        · injection hab with heq _
          rw [← heq, hback] at hc
          cases hc
        · injection hab with hf _
          exact hf ▸ rfl
        · injection hab with _ hab
          injection hab with _ hab
          rw [List.getLast?_cons, List.getLast?_cons, ih hab]
          rfl
      · rename_i he
        rcases a with _ | ⟨f, a⟩
        · injection hab with heq _
          exact absurd (heq ▸ hc) he
        · injection hab with _ hab
          rw [List.getLast?_cons, ih hab]
          rfl

/-- When what is written is read as it was. -/
theorem escaped_escaping (hesc : ∀ c, d.escapes c = true → d.ends c = true)
    (hp : ∀ c, d.escapes c = true → p c = true) (hback : p '\\' = false) :
    d.Escaped (escaping p s) s
      ↔ (∀ c ∈ s, p c = true → d.escapes c = true)
        ∧ s.getLast? ≠ some '\\' := by
  have hesc' := escapes_backslash hesc
  have hends {c : Char} (h : ¬ p c = true) : d.ends c = false := by
    cases hc : d.ends c with
    | false => rfl
    | true => exact absurd (hp c (d.escapes_of_ends c hc)) h
  induction s with
  | nil => simp [escaping, Escaped.nil]
  | cons c s ih =>
      rw [escaping_cons, List.forall_mem_cons, List.getLast?_cons]
      split
      · rename_i hc
        have hne : c ≠ '\\' := by
          rintro rfl
          rw [hback] at hc
          cases hc
        constructor
        · intro h
          cases h with
          | escape he h =>
              obtain ⟨hall, hlast⟩ := ih.1 h
              refine ⟨⟨fun _ => he, hall⟩, ?_⟩
              intro heq
              cases hs : s.getLast? with
              | none =>
                  rw [hs] at heq
                  injection heq with heq
                  exact hne heq
              | some x =>
                  rw [hs] at heq hlast
                  exact hlast heq
          | plain _ _ _ => exact absurd rfl hne
        · rintro ⟨⟨he, hall⟩, hlast⟩
          refine .escape (he hc) (ih.2 ⟨hall, ?_⟩)
          intro hs
          exact hlast (by rw [hs]; rfl)
      · rename_i hc
        constructor
        · intro h
          generalize ht : escaping p s = t at h
          cases h with
          | escape he _ =>
              rw [hesc'] at he
              cases he
          | plain _ hnext h =>
              obtain ⟨hall, hlast⟩ := ih.1 (ht ▸ h)
              refine ⟨⟨fun he => absurd he hc, hall⟩, ?_⟩
              intro heq
              cases hs : s.getLast? with
              | none =>
                  rw [hs] at heq
                  injection heq with heq
                  rw [List.getLast?_eq_none_iff.1 hs] at ht
                  obtain ⟨_, hhead, _⟩ := hnext heq
                  rw [← ht] at hhead
                  cases hhead
              | some x =>
                  rw [hs] at heq hlast
                  exact hlast heq
        · rintro ⟨⟨_, hall⟩, hlast⟩
          refine .plain (hends hc) ?_ (ih.2 ⟨hall, ?_⟩)
          · rintro rfl
            cases s with
            | nil => exact absurd rfl hlast
            | cons e s =>
                rw [escaping_cons]
                split
                · exact ⟨'\\', rfl, hesc'⟩
                · rename_i he
                  exact ⟨e, rfl, by simpa using fun h => he (hp e h)⟩
          · intro hs
            exact hlast (by rw [hs]; rfl)

-- ============================================================== alignment

theorem align_free {x y k l : Chars} (h : x ++ c :: k = y ++ c :: l)
    (hk : c ∉ k) (hl : c ∉ l) : x = y ∧ k = l := by
  obtain ⟨a, hy, ha⟩ | ⟨a, hx, ha⟩ := List.append_eq_append_iff.1 h
  · cases a with
    | nil =>
        injection ha with _ hkl
        exact ⟨by rw [hy, List.append_nil], hkl⟩
    | cons e a =>
        injection ha with _ hkl
        exact absurd (hkl ▸ List.mem_append_right a (List.mem_cons_self ..)) hk
  · cases a with
    | nil =>
        injection ha with _ hkl
        exact ⟨by rw [hx, List.append_nil], hkl.symm⟩
    | cons e a =>
        injection ha with _ hkl
        exact absurd (hkl ▸ List.mem_append_right a (List.mem_cons_self ..)) hl

/-- A text is written, and read, with an end character and a part behind
it, at its end. If the part is written as it is to be read, the two agree
where nothing that is before it can hide the character. -/
theorem align_plain {x y k : Chars} {e : Char}
    (h : x ++ c :: k = y ++ e :: raw) (hraw : d.Escaped raw k)
    (hc : d.ends c = true) (hx : x.getLast? ≠ some '\\') :
    x = y ∧ c = e ∧ k = raw := by
  obtain ⟨a, hy, ha⟩ | ⟨a, hx', ha⟩ := List.append_eq_append_iff.1 h
  · cases a with
    | nil =>
        injection ha with hce hk
        exact ⟨by rw [hy, List.append_nil], hce, hk⟩
    | cons f a =>
        -- what is read is not longer than what is written
        rw [List.cons_append] at ha
        injection ha with _ hk
        have hlen := hraw.length_le
        rw [hk, List.length_append, List.length_cons] at hlen
        omega
  · cases a with
    | nil =>
        injection ha with hec hk
        exact ⟨by rw [hx', List.append_nil], hec.symm, hk.symm⟩
    | cons f a =>
        injection ha with _ hk
        have hlast := hraw.guarded hk hc
        rw [hx', List.getLast?_append, List.getLast?_cons, hlast] at hx
        exact absurd rfl hx

/-- The same for a part that is written with all that is escaped. -/
theorem align_escaping (hp : ∀ c, d.escapes c = true → p c = true)
    (hback : p '\\' = false) {x y : Chars}
    (h : x ++ c :: escaping p s = y ++ c :: raw) (hraw : d.Escaped raw s)
    (hc : p c = true) (hy : y.getLast? ≠ some '\\') :
    x = y ∧ escaping p s = raw := by
  obtain ⟨a, hy', ha⟩ | ⟨a, hx, ha⟩ := List.append_eq_append_iff.1 h
  · cases a with
    | nil =>
        injection ha with _ hk
        exact ⟨by rw [hy', List.append_nil], hk⟩
    | cons f a =>
        injection ha with _ hk
        have hlast := escaping_guarded hback hk hc
        rw [hy', List.getLast?_append, List.getLast?_cons, hlast] at hy
        exact absurd rfl hy
  · cases a with
    | nil =>
        injection ha with _ hk
        exact ⟨by rw [hx, List.append_nil], hk.symm⟩
    | cons f a =>
        rw [List.cons_append] at ha
        injection ha with _ hk
        have hlen := hraw.length_escaping hp
        rw [hk, List.length_append, List.length_cons] at hlen
        omega

end escaping

end Delimiters

end Text

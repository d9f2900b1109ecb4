/-
Text read by lines.

`getlines` is what repeated calls of a line reader return: the text up to
each newline, and what is left at the end unless nothing is. `unlines`
writes every line with a newline behind it, so lines without a newline in
them come back (`getlines_unlines`); a last line that had no newline is
read in the same way after it was written with one.
-/
import Mathlib.Data.List.DropRight

namespace Text

/-- A text, or a part of it. -/
abbrev Chars : Type := List Char

-- ============================================================= the lines

def getlines : Chars → List Chars
  | [] => []
  | c :: cs =>
      if c = '\n' then [] :: getlines cs
      else
        match getlines cs with
        | [] => [[c]]
        | l :: ls => (c :: l) :: ls

def unlines (ls : List Chars) : Chars :=
  ls.flatMap fun l => l ++ ['\n']

theorem unlines_cons (l : Chars) (ls : List Chars) :
    unlines (l :: ls) = l ++ '\n' :: unlines ls := by
  simp [unlines]

theorem length_unlines_cons (l : Chars) (ls : List Chars) :
    (unlines (l :: ls)).length = l.length + 1 + (unlines ls).length := by
  rw [unlines_cons, List.length_append, List.length_cons]
  omega

theorem getlines_line {l : Chars} (h : '\n' ∉ l) (cs : Chars) :
    getlines (l ++ '\n' :: cs) = l :: getlines cs := by
  induction l with
  | nil => rfl
  | cons c l ih =>
      have hc : c ≠ '\n' := fun hc => h (hc ▸ List.mem_cons_self ..)
      have hl := ih fun hl => h (List.mem_cons_of_mem c hl)
      rw [List.cons_append, getlines, if_neg hc, hl]

/-- Lines that were written are read back. -/
theorem getlines_unlines {ls : List Chars} (h : ∀ l ∈ ls, '\n' ∉ l) :
    getlines (unlines ls) = ls := by
  induction ls with
  | nil => rfl
  | cons l ls ih =>
      rw [unlines_cons, getlines_line (h l (List.mem_cons_self ..)),
        ih fun k hk => h k (List.mem_cons_of_mem l hk)]

/-- A line has no newline in it. -/
theorem newline_not_mem {cs l : Chars} (h : l ∈ getlines cs) : '\n' ∉ l := by
  induction cs generalizing l with
  | nil => cases h
  | cons c cs ih =>
      unfold getlines at h
      by_cases hc : c = '\n'
      · rw [if_pos hc] at h
        obtain rfl | h := List.mem_cons.mp h
        · exact List.not_mem_nil
        · exact ih h
      · rw [if_neg hc] at h
        cases hcs : getlines cs with
        | nil =>
            rw [hcs] at h
            rw [List.mem_singleton.mp h, List.mem_singleton]
            exact Ne.symm hc
        | cons k ks =>
            rw [hcs] at h ih
            obtain rfl | h := List.mem_cons.mp h
            · intro hmem
              obtain heq | hmem := List.mem_cons.mp hmem
              · exact hc heq.symm
              · exact ih (List.mem_cons_self ..) hmem
            · exact ih (List.mem_cons_of_mem k h)

/-- A text that is one line. -/
theorem getlines_single {l : Chars} (h : '\n' ∉ l) (hne : l ≠ []) :
    getlines l = [l] := by
  induction l with
  | nil => exact absurd rfl hne
  | cons c l ih =>
      have hc : c ≠ '\n' := fun hc => h (hc ▸ List.mem_cons_self ..)
      rw [getlines, if_neg hc]
      cases l with
      | nil => rfl
      | cons d l =>
          rw [ih (fun hl => h (List.mem_cons_of_mem c hl)) (List.cons_ne_nil d l)]

theorem getlines_eq_nil {cs : Chars} (h : getlines cs = []) : cs = [] := by
  cases cs with
  | nil => rfl
  | cons c cs =>
      rw [getlines] at h
      split at h
      · cases h
      · split at h <;> cases h

/-- The text of a single line, but for a newline at its end. -/
theorem eq_of_getlines {cs l : Chars} (h : getlines cs = [l])
    (hlast : cs.getLast? ≠ some '\n') : cs = l := by
  induction cs generalizing l with
  | nil => cases h
  | cons c cs ih =>
      rw [getlines] at h
      split at h
      · rename_i hc
        injection h with _ hcs
        rw [hc, getlines_eq_nil hcs] at hlast
        exact absurd rfl hlast
      · cases hls : getlines cs with
        | nil =>
            rw [hls] at h
            injection h with h _
            rw [getlines_eq_nil hls, h]
        | cons k ks =>
            rw [hls] at h
            injection h with hl hks
            subst hl hks
            have hne : cs ≠ [] := by
              rintro rfl
              cases hls
            rw [List.getLast?_cons_of_ne_nil hne] at hlast
            rw [ih hls hlast]

/-- Lines of which only a part was written are read back if nothing is
missing, or the newline behind a last line that is not empty. -/
theorem getlines_take_unlines {ls : List Chars} (h : ∀ l ∈ ls, '\n' ∉ l)
    (n : Nat) :
    getlines ((unlines ls).take n) = ls ↔ (unlines ls).length ≤ n
      ∨ ((unlines ls).length = n + 1 ∧ ls.getLast? ≠ some []) := by
  induction ls generalizing n with
  | nil => simp [unlines, getlines]
  | cons l ls ih =>
      have hl := h l (List.mem_cons_self ..)
      rw [length_unlines_cons, unlines_cons]
      by_cases hn : n ≤ l.length
      · -- the first line is cut off, or all there is
        have htake : (l ++ '\n' :: unlines ls).take n = l.take n := by
          rw [List.take_append, Nat.sub_eq_zero_of_le hn, List.take_zero,
            List.append_nil]
        have hfree : '\n' ∉ l.take n := fun hmem => hl (List.mem_of_mem_take hmem)
        rw [htake]
        constructor
        · intro heq
          have hne : l.take n ≠ [] := by
            intro hnil
            rw [hnil] at heq
            cases heq
          rw [getlines_single hfree hne] at heq
          injection heq with hfirst hrest
          subst hrest
          rw [hfirst] at hne
          have hlen : l.length ≤ n := by
            rw [← hfirst, List.length_take]
            omega
          refine .inr ⟨?_, ?_⟩
          · show l.length + 1 + 0 = n + 1
            omega
          · simpa using hne
        · rintro (hle | ⟨hlen, hlast⟩)
          · omega
          · cases ls with
            | nil =>
                have hn : l.take n = l := List.take_of_length_le (by
                  have h0 : (unlines []).length = 0 := rfl
                  omega)
                rw [hn]
                exact getlines_single hl (by simpa using hlast)
            | cons k ks =>
                rw [length_unlines_cons] at hlen
                omega
      · obtain ⟨k, rfl⟩ : ∃ k, n = l.length + 1 + k :=
          ⟨n - (l.length + 1), by omega⟩
        have htake : (l ++ '\n' :: unlines ls).take (l.length + 1 + k)
            = l ++ '\n' :: (unlines ls).take k := by
          rw [List.take_append, List.take_of_length_le (by omega)]
          congr 1
          rw [show l.length + 1 + k - l.length = k + 1 by omega,
            List.take_succ_cons]
        rw [htake, getlines_line hl, List.cons.injEq, and_iff_right rfl,
          ih (fun j hj => h j (List.mem_cons_of_mem l hj))]
        cases ls with
        | nil => simp [unlines]
        | cons j ls =>
            rw [List.getLast?_cons_cons]
            constructor
            · rintro (hle | ⟨hlen, hlast⟩)
              · exact .inl (by omega)
              · exact .inr ⟨by omega, hlast⟩
            · rintro (hle | ⟨hlen, hlast⟩)
              · exact .inl (by omega)
              · exact .inr ⟨by omega, hlast⟩

-- ============================================================== trimming

section Trim

variable (space : Char → Bool)

def trimLeft (cs : Chars) : Chars := cs.dropWhile space

def trimRight (cs : Chars) : Chars := cs.rdropWhile space

def trim (cs : Chars) : Chars := trimRight space (trimLeft space cs)

/-- A text without space at its ends. -/
structure Trimmed (cs : Chars) : Prop where
  first : ∀ c, cs.head? = some c → space c = false
  last : ∀ c, cs.getLast? = some c → space c = false

variable {space}

theorem trimRight_eq {cs : Chars}
    (h : ∀ c, cs.getLast? = some c → space c = false) :
    trimRight space cs = cs := by
  apply List.rdropWhile_eq_self_iff.mpr
  intro hne hspace
  rw [h _ (List.getLast?_eq_getLast_of_ne_nil hne)] at hspace
  cases hspace

theorem Trimmed.trim_eq {cs : Chars} (h : Trimmed space cs) :
    trim space cs = cs := by
  have hleft : trimLeft space cs = cs := by
    cases cs with
    | nil => rfl
    | cons c cs =>
        exact List.dropWhile_cons_of_neg (by simp [h.first c rfl])
  unfold trim
  rw [hleft]
  exact trimRight_eq h.last

theorem trim_cons {c : Char} (hc : space c = true) (cs : Chars) :
    trim space (c :: cs) = trim space cs := by
  unfold trim trimLeft
  rw [List.dropWhile_cons_of_pos hc]

end Trim

-- ================================================================ tokens

/-- The parts of a line between delimiters, without empty ones; `cur` is
the part so far. -/
def tokensFrom (delim : Char → Bool) (cur : Chars) : Chars → List Chars
  | [] => if cur = [] then [] else [cur]
  | c :: cs =>
      if delim c then
        if cur = [] then tokensFrom delim [] cs
        else cur :: tokensFrom delim [] cs
      else tokensFrom delim (cur ++ [c]) cs

def tokens (delim : Char → Bool) (cs : Chars) : List Chars :=
  tokensFrom delim [] cs

variable {delim : Char → Bool}

theorem tokensFrom_append (cur : Chars) {l : Chars}
    (h : ∀ c ∈ l, delim c = false) (cs : Chars) :
    tokensFrom delim cur (l ++ cs) = tokensFrom delim (cur ++ l) cs := by
  induction l generalizing cur with
  | nil => rw [List.append_nil, List.nil_append]
  | cons c l ih =>
      have hc : ¬ delim c = true := by simp [h c (List.mem_cons_self ..)]
      rw [List.cons_append, tokensFrom, if_neg hc,
        ih _ fun d hd => h d (List.mem_cons_of_mem c hd), List.append_assoc]
      rfl

theorem tokens_delim {c : Char} (hc : delim c = true) (cs : Chars) :
    tokens delim (c :: cs) = tokens delim cs := by
  unfold tokens
  rw [tokensFrom, if_pos hc, if_pos rfl]

/-- A part that is followed by a delimiter. -/
theorem tokens_part {l : Chars} (h : ∀ c ∈ l, delim c = false) (hne : l ≠ [])
    {c : Char} (hc : delim c = true) (cs : Chars) :
    tokens delim (l ++ c :: cs) = l :: tokens delim cs := by
  unfold tokens
  rw [tokensFrom_append [] h, List.nil_append, tokensFrom, if_pos hc,
    if_neg hne]

/-- The last part. -/
theorem tokens_last {l : Chars} (h : ∀ c ∈ l, delim c = false) (hne : l ≠ []) :
    tokens delim l = [l] := by
  unfold tokens
  have happ := tokensFrom_append [] h []
  rw [List.append_nil, List.nil_append] at happ
  rw [happ, tokensFrom, if_neg hne]

end Text

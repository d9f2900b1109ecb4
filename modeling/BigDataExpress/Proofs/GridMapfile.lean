/-
What `get_entries` reads after `push_entries`.

A line is an entry, or it is skipped, or it is an error, whatever was read
before it (`lineEntry`); the state of the reader only says to which of the
two maps an entry goes. So the reading of a file is the reading of its
parts, one after the other (`Reads.append`).

A quoted line is read as the entry it was made from. An unquoted line
never is: it is an error, or it is skipped if the name starts like a
comment. So only a file with a section takes entries, and there the lines
around the section must have no entries that count as BDE's, and those in
it none that count as the system's (`round_trip_iff`).
-/
import BigDataExpress.Utils.GridMapfile

namespace BigDataExpress

namespace GridMapfile

open Text

-- =============================================================== one line

/-- The entry of a line, if it has one. -/
def lineEntry (line : Chars) : Except String (Option Entry) :=
  let line := trim isspace line
  if line = [] ∨ isCommentLine line = true then pure none
  else if hasQuotedDn line then
    match splitString line [quotingChar] with
    | [dn, user] => pure (some (dn, trim isspace user))
    | _ => throw (malformed line)
  else
    match splitString line whitespaceChars with
    | [_, _] => throw outOfRange
    | _ => throw (malformed line)

/-- Whose entry a line would be. -/
def owner (system : Bool) (line : Chars) : Bool :=
  ({ system := system : Reader }.mark (trim isspace line)).system

/-- The reader with an entry, or without. -/
def Reader.emplace? (r : Reader) : Option Entry → Reader
  | none => r
  | some p => r.emplace p

/-- A marker changes whose section it is, and nothing else. -/
theorem mark_eq (r : Reader) (line : Chars) :
    r.mark (trim isspace line) = { r with system := owner r.system line } := by
  unfold owner Reader.mark
  simp only
  split_ifs <;> rfl

/-- A line may begin or end the section, and may have an entry for it. -/
theorem readLine_eq (r : Reader) (line : Chars) :
    readLine r line = (lineEntry line).map fun p =>
      { r with system := owner r.system line : Reader }.emplace? p := by
  unfold readLine lineEntry
  simp only [mark_eq]
  split_ifs
  · rfl
  · generalize splitString _ _ = v
    obtain _ | ⟨dn, _ | ⟨user, _ | ⟨x, v⟩⟩⟩ := v <;> rfl
  · generalize splitString _ _ = v
    obtain _ | ⟨dn, _ | ⟨user, _ | ⟨x, v⟩⟩⟩ := v <;> rfl

-- ============================================================== the lines

/-- Lines that are read without an error: whose entries they start and end
with, and the entries of the system and of BDE in their order. -/
inductive Reads :
    Bool → List Chars → Bool → List Entry → List Entry → Prop
  | nil (system : Bool) : Reads system [] system [] []
  | skip {system last : Bool} {line : Chars} {lines : List Chars}
      {ss bs : List Entry} :
      lineEntry line = .ok none → Reads (owner system line) lines last ss bs →
      Reads system (line :: lines) last ss bs
  | system {system last : Bool} {line : Chars} {lines : List Chars} {p : Entry}
      {ss bs : List Entry} :
      lineEntry line = .ok (some p) → owner system line = true →
      Reads true lines last ss bs →
      Reads system (line :: lines) last (p :: ss) bs
  | bde {system last : Bool} {line : Chars} {lines : List Chars} {p : Entry}
      {ss bs : List Entry} :
      lineEntry line = .ok (some p) → owner system line = false →
      Reads false lines last ss bs →
      Reads system (line :: lines) last ss (p :: bs)

/-- The reader after entries. -/
def Reader.emplaceAll (r : Reader) (last : Bool) (ss bs : List Entry) :
    Reader where
  system := last
  systemEntries := r.systemEntries.emplaceAll ss
  bdeEntries := r.bdeEntries.emplaceAll bs

/-- Lines that can be read put their entries into the two sections. -/
theorem Reads.run {system last : Bool} {lines : List Chars}
    {ss bs : List Entry} (h : Reads system lines last ss bs) (r : Reader)
    (hr : r.system = system) :
    readLines r lines = .ok (r.emplaceAll last ss bs) := by
  induction h generalizing r with
  | nil system =>
      rw [← hr]
      rfl
  | skip hline _ ih =>
      subst hr
      unfold readLines
      rw [readLine_eq, hline]
      exact ih _ rfl
  | system hline howner _ ih =>
      subst hr
      unfold readLines
      rw [readLine_eq, hline, howner]
      exact ih _ rfl
  | bde hline howner _ ih =>
      subst hr
      unfold readLines
      rw [readLine_eq, hline, howner]
      exact ih _ rfl

/-- A line that is an error stops the reading. -/
theorem readLines_error {r : Reader} {line : Chars} {lines : List Chars}
    {e : String} (h : lineEntry line = .error e) :
    readLines r (line :: lines) = .error e := by
  unfold readLines
  rw [readLine_eq, h]
  rfl

/-- A file that was read had lines that can be. -/
theorem reads_of_ok {r r' : Reader} {lines : List Chars}
    (h : readLines r lines = .ok r') :
    ∃ ss bs, Reads r.system lines r'.system ss bs := by
  induction lines generalizing r with
  | nil =>
      injection h with h
      exact ⟨[], [], h ▸ .nil _⟩
  | cons line lines ih =>
      cases hline : lineEntry line with
      | error e =>
          rw [readLines_error hline] at h
          cases h
      | ok p =>
          unfold readLines at h
          rw [readLine_eq, hline] at h
          obtain ⟨ss, bs, hrest⟩ := ih h
          cases p with
          | none => exact ⟨ss, bs, .skip hline hrest⟩
          | some p =>
              cases howner : owner r.system line with
              | true =>
                  rw [howner] at hrest
                  exact ⟨p :: ss, bs, .system hline howner hrest⟩
              | false =>
                  rw [howner] at hrest
                  exact ⟨ss, p :: bs, .bde hline howner hrest⟩

/-- Reading goes on where it stopped. -/
theorem Reads.append {system mid last : Bool} {lines lines' : List Chars}
    {ss bs ss' bs' : List Entry} (h : Reads system lines mid ss bs)
    (h' : Reads mid lines' last ss' bs') :
    Reads system (lines ++ lines') last (ss ++ ss') (bs ++ bs') := by
  induction h with
  | nil => exact h'
  | skip hline _ ih => exact .skip hline (ih h')
  | system hline howner _ ih => exact .system hline howner (ih h')
  | bde hline howner _ ih => exact .bde hline howner (ih h')

/-- What can be read can be read in two parts. -/
theorem Reads.split {system last : Bool} {lines lines' : List Chars}
    {ss bs : List Entry} (h : Reads system (lines ++ lines') last ss bs) :
    ∃ mid ss₁ bs₁ ss₂ bs₂, Reads system lines mid ss₁ bs₁
      ∧ Reads mid lines' last ss₂ bs₂ ∧ ss = ss₁ ++ ss₂ ∧ bs = bs₁ ++ bs₂ := by
  induction lines generalizing system ss bs with
  | nil => exact ⟨system, [], [], ss, bs, .nil _, h, rfl, rfl⟩
  | cons line lines ih =>
      cases h with
      | skip hline h =>
          obtain ⟨mid, s₁, b₁, s₂, b₂, h₁, h₂, rfl, rfl⟩ := ih h
          exact ⟨mid, s₁, b₁, s₂, b₂, .skip hline h₁, h₂, rfl, rfl⟩
      | @system _ _ _ _ p _ _ hline howner h =>
          obtain ⟨mid, s₁, b₁, s₂, b₂, h₁, h₂, rfl, rfl⟩ := ih h
          exact ⟨mid, p :: s₁, b₁, s₂, b₂, .system hline howner h₁, h₂, rfl, rfl⟩
      | @bde _ _ _ _ p _ _ hline howner h =>
          obtain ⟨mid, s₁, b₁, s₂, b₂, h₁, h₂, rfl, rfl⟩ := ih h
          exact ⟨mid, s₁, p :: b₁, s₂, b₂, .bde hline howner h₁, h₂, rfl, rfl⟩

/-- The two markers are skipped; what follows them is BDE's or the
system's. -/
theorem reads_marker {system last : Bool} {lines : List Chars}
    {ss bs : List Entry} :
    (Reads system (beginMarker :: lines) last ss bs
        ↔ Reads false lines last ss bs)
      ∧ (Reads system (endMarker :: lines) last ss bs
        ↔ Reads true lines last ss bs) := by
  have hb : lineEntry beginMarker = .ok none := by decide +kernel
  have he : lineEntry endMarker = .ok none := by decide +kernel
  have hob : owner system beginMarker = false := by
    cases system <;> decide +kernel
  have hoe : owner system endMarker = true := by
    cases system <;> decide +kernel
  refine ⟨⟨?_, fun h => .skip hb (hob ▸ h)⟩, ⟨?_, fun h => .skip he (hoe ▸ h)⟩⟩
  · intro h
    cases h with
    | skip _ h => exact hob ▸ h
    | system hline _ _ =>
        rw [hb] at hline
        cases hline
    | bde hline _ _ =>
        rw [hb] at hline
        cases hline
  · intro h
    cases h with
    | skip _ h => exact hoe ▸ h
    | system hline _ _ =>
        rw [he] at hline
        cases hline
    | bde hline _ _ =>
        rw [he] at hline
        cases hline

-- ============================================================ the entries

/-- A name and a user that a line can hold. -/
structure WellFormed (p : Entry) : Prop where
  dn : p.1 ≠ []
  user : p.2 ≠ []
  newline : '\n' ∉ p.1 ++ p.2
  quote : quotingChar ∉ p.1 ++ p.2
  dnTrimmed : Trimmed isspace p.1
  userTrimmed : Trimmed isspace p.2

variable {p : Entry}

/-- A line ends as its user does. -/
theorem getLast?_line (h : WellFormed p) (l : Chars) :
    (l ++ p.2).getLast? = p.2.getLast? :=
  List.getLast?_append_of_ne_nil l h.user

/-- A line begins as its subject does. -/
theorem head?_line (h : WellFormed p) (l : Chars) :
    (p.1 ++ l).head? = p.1.head? :=
  List.head?_append_of_ne_nil p.1 h.dn

/-- The quoted line, character by character. -/
theorem quotedLine_eq (p : Entry) :
    quotedLine p = quotingChar :: (p.1 ++ quotingChar :: ' ' :: p.2) := by
  simp [quotedLine, quote]

/-- It has no space around it. -/
theorem trim_quotedLine (h : WellFormed p) :
    trim isspace (quotedLine p) = quotedLine p := by
  apply Trimmed.trim_eq
  refine ⟨?_, ?_⟩
  · intro c hc
    rw [quotedLine_eq] at hc
    injection hc with hc
    subst hc
    decide
  · intro c hc
    unfold quotedLine at hc
    rw [getLast?_line h] at hc
    exact h.userTrimmed.last c hc

/-- It is one line. -/
theorem newline_quotedLine (h : '\n' ∉ p.1 ++ p.2) : '\n' ∉ quotedLine p := by
  rw [quotedLine_eq]
  simp only [List.mem_cons, List.mem_append, not_or] at h ⊢
  exact ⟨by decide, h.1, by decide, by decide, h.2⟩

/-- So is an unquoted one. -/
theorem newline_plainLine (h : '\n' ∉ p.1 ++ p.2) : '\n' ∉ plainLine p := by
  unfold plainLine
  simp only [List.mem_append, List.mem_singleton, not_or] at h ⊢
  exact ⟨⟨h.1, by decide⟩, h.2⟩

/-- A quoted line is read as its entry. -/
theorem lineEntry_quoted (h : WellFormed p) :
    lineEntry (quotedLine p) = .ok (some p) := by
  have hquote : quotingChar ∉ p.1 ∧ quotingChar ∉ p.2 := by
    have := h.quote
    rw [List.mem_append, not_or] at this
    exact this
  have hsplit : splitString (quotedLine p) [quotingChar]
      = [p.1, ' ' :: p.2] := by
    unfold splitString
    rw [getlines_single (newline_quotedLine h.newline)
      (by rw [quotedLine_eq]; exact List.cons_ne_nil _ _),
      List.flatMap_singleton, quotedLine_eq, tokens_delim (by decide),
      tokens_part ?_ h.dn (by decide), tokens_last ?_ (List.cons_ne_nil _ _)]
    · intro c hc
      obtain rfl | hc := List.mem_cons.mp hc
      · decide
      · exact decide_eq_false fun hq =>
          hquote.2 (List.mem_singleton.mp hq ▸ hc)
    · intro c hc
      exact decide_eq_false fun hq =>
        hquote.1 (List.mem_singleton.mp hq ▸ hc)
  unfold lineEntry
  simp only [trim_quotedLine h]
  rw [if_neg, if_pos, hsplit]
  · simp only [trim_cons (show isspace ' ' = true by decide),
      h.userTrimmed.trim_eq]
    rfl
  · rw [quotedLine_eq]
    rfl
  · rw [quotedLine_eq]
    simp [isCommentLine, commentChar, quotingChar]

/-- A plain line is never read as an entry: it is skipped if its name
starts like a comment, and is an error if not. -/
theorem lineEntry_plain (h : WellFormed p) :
    if isCommentLine p.1 = true then lineEntry (plainLine p) = .ok none
    else ∃ e, lineEntry (plainLine p) = .error e := by
  obtain ⟨c, dn, hdn⟩ := List.exists_cons_of_ne_nil h.dn
  have hline : plainLine p = c :: (dn ++ ' ' :: p.2) := by
    simp [plainLine, hdn]
  have htrim : trim isspace (plainLine p) = plainLine p := by
    apply Trimmed.trim_eq
    refine ⟨?_, ?_⟩
    · intro d hd
      unfold plainLine at hd
      rw [List.append_assoc, head?_line h] at hd
      exact h.dnTrimmed.first d hd
    · intro d hd
      unfold plainLine at hd
      rw [getLast?_line h] at hd
      exact h.userTrimmed.last d hd
  have hcomment : isCommentLine (plainLine p) = isCommentLine p.1 := by
    rw [hline, hdn]
    simp [isCommentLine, List.isPrefixOf]
  have hquoted : hasQuotedDn (plainLine p) = false := by
    have hc : quotingChar ≠ c := by
      intro hc
      apply h.quote
      rw [hdn, hc]
      simp
    rw [hline]
    simp [hasQuotedDn, List.isPrefixOf, hc]
  unfold lineEntry
  simp only [htrim, hcomment, hquoted]
  by_cases hcom : isCommentLine p.1 = true
  · rw [if_pos hcom, if_pos (.inr hcom)]
    rfl
  · rw [if_neg hcom, if_neg, if_neg Bool.false_ne_true]
    · generalize splitString _ _ = v
      obtain _ | ⟨x, _ | ⟨y, _ | ⟨z, v⟩⟩⟩ := v <;> exact ⟨_, rfl⟩
    · rw [hline]
      simp only [List.cons_ne_nil, false_or]
      exact hcom

/-- Quoted lines in a section are its entries. -/
theorem reads_quoted {l : List Entry} (h : ∀ p ∈ l, WellFormed p) :
    Reads false (l.map quotedLine) false [] l := by
  induction l with
  | nil => exact .nil false
  | cons p l ih =>
      have hp := h p (List.mem_cons_self ..)
      have howner : owner false (quotedLine p) = false := by
        unfold owner
        rw [trim_quotedLine hp, quotedLine_eq]
        rfl
      exact .bde (lineEntry_quoted hp) howner
        (ih fun q hq => h q (List.mem_cons_of_mem p hq))

/-- Plain lines can be read if all of them are skipped. -/
theorem reads_plain {l : List Entry} (h : ∀ p ∈ l, WellFormed p)
    (hcom : ∀ p ∈ l, isCommentLine p.1 = true) (system : Bool) :
    ∃ last, Reads system (l.map plainLine) last [] [] := by
  induction l generalizing system with
  | nil => exact ⟨system, .nil system⟩
  | cons p l ih =>
      have hp := lineEntry_plain (h p (List.mem_cons_self ..))
      rw [if_pos (hcom p (List.mem_cons_self ..))] at hp
      obtain ⟨last, hrest⟩ := ih (fun q hq => h q (List.mem_cons_of_mem p hq))
        (fun q hq => hcom q (List.mem_cons_of_mem p hq))
        (owner system (plainLine p))
      exact ⟨last, .skip hp hrest⟩

/-- Unquoted lines are read only as comments, so no entry comes of them. -/
theorem Reads.plain {l : List Entry} (hl : ∀ p ∈ l, WellFormed p)
    {system last : Bool} {ss bs : List Entry}
    (h : Reads system (l.map plainLine) last ss bs) :
    (∀ p ∈ l, isCommentLine p.1 = true) ∧ ss = [] ∧ bs = [] := by
  induction l generalizing system ss bs with
  | nil =>
      cases h
      exact ⟨fun _ hp => absurd hp List.not_mem_nil, rfl, rfl⟩
  | cons p l ih =>
      have hp := lineEntry_plain (hl p (List.mem_cons_self ..))
      have hrest := fun q hq => hl q (List.mem_cons_of_mem p hq)
      by_cases hcom : isCommentLine p.1 = true
      · rw [if_pos hcom] at hp
        cases h with
        | skip _ h =>
            obtain ⟨hall, rfl, rfl⟩ := ih hrest h
            exact ⟨List.forall_mem_cons.mpr ⟨hcom, hall⟩, rfl, rfl⟩
        | system hline _ _ | bde hline _ _ =>
            rw [hp] at hline
            cases hline
      · rw [if_neg hcom] at hp
        obtain ⟨e, he⟩ := hp
        cases h with
        | skip hline _ | system hline _ _ | bde hline _ _ =>
            rw [he] at hline
            cases hline

-- ============================================================= the writer

/-- Inserting at the end of the first list. -/
theorem insertIdx_between {α : Type} (a b : List α) (x : α) :
    (a ++ b).insertIdx a.length x = a ++ x :: b := by
  induction a with
  | nil => rfl
  | cons y a ih => exact congrArg (y :: ·) ih

/-- The entries are inserted in their order, unless the vector is full
before the last of them. -/
theorem insertLines_eq (capacity : Nat) (ps : List Entry) (a b : List Chars)
    (h : a.length + b.length ≤ capacity) :
    insertLines capacity ps a.length (a ++ b)
      = if ps.length + (a.length + b.length) ≤ capacity + 1 then
          some (a ++ ps.map quotedLine ++ b)
        else none := by
  induction ps generalizing a with
  | nil =>
      rw [if_pos (by simp only [List.length_nil]; omega), List.map_nil,
        List.append_nil]
      rfl
  | cons p ps ih =>
      cases ps with
      | nil =>
          rw [if_pos (by simp only [List.length_singleton]; omega)]
          unfold insertLines
          rw [insertIdx_between]
          simp
      | cons q ps =>
          unfold insertLines
          rw [List.length_append]
          by_cases hfull : a.length + b.length = capacity
          · rw [if_pos hfull, if_neg]
            simp only [List.length_cons]
            omega
          · have hstep := ih (a ++ [quotedLine p])
              (by simp only [List.length_append, List.length_singleton]; omega)
            simp only [List.length_append, List.length_singleton,
              List.append_assoc, List.singleton_append] at hstep
            rw [if_neg hfull, insertIdx_between, hstep]
            simp only [List.length_cons, List.map_cons, List.append_assoc,
              List.cons_append]
            congr 1
            exact propext ⟨fun h => by omega, fun h => by omega⟩

/-- The lines before, in and behind the section that the writer finds. -/
structure Section (lines pre mid post : List Chars) : Prop where
  eq : lines = pre ++ beginMarker :: (mid ++ endMarker :: post)
  first : beginMarker ∉ pre
  next : endMarker ∉ mid

variable {lines pre mid post : List Chars} {name : String} {capacity : Nat}

/-- Where an element stands that was not there before. -/
theorem idxOf_first {α : Type} [BEq α] [LawfulBEq α] {a : α} {l : List α}
    (h : a ∉ l) (l' : List α) : (l ++ a :: l').idxOf a = l.length := by
  rw [List.idxOf_append, if_neg h, List.idxOf_cons_self, Nat.zero_add]

/-- Without a marker the section is put at the end. -/
theorem replaceLines_absent (h : beginMarker ∉ lines) (e : Entries) :
    replaceLines name capacity e lines = .ok (some (lines ++ newSection e)) := by
  unfold replaceLines
  simp only [List.idxOf_eq_length_iff.mpr h, if_true]
  rfl

/-- The two markers differ. -/
theorem endMarker_ne : endMarker ≠ beginMarker := by decide +kernel

/-- A section without an end is refused. -/
theorem replaceLines_open {rest : List Chars} (hpre : beginMarker ∉ pre)
    (hrest : endMarker ∉ rest) (e : Entries) :
    ∃ what, replaceLines name capacity e (pre ++ beginMarker :: rest)
      = .error what := by
  have hend : endMarker ∉ beginMarker :: rest := by
    rw [List.mem_cons, not_or]
    exact ⟨endMarker_ne, hrest⟩
  unfold replaceLines
  simp only [idxOf_first hpre, List.drop_left, List.idxOf_eq_length_iff.mpr hend]
  rw [if_neg, if_pos]
  · exact ⟨_, rfl⟩
  · rw [List.length_append]
  · rw [List.length_append, List.length_cons]
    omega

/-- A section with an end is replaced if the vector has room for what is
inserted. -/
theorem Section.replaceLines (h : Section lines pre mid post) (e : Entries)
    (hcap : lines.length ≤ capacity) :
    replaceLines name capacity e lines
      = .ok (if e.entries.length ≤ mid.length + (capacity - lines.length) + 1
          then some (pre ++ beginMarker :: (e.entries.map quotedLine
            ++ endMarker :: post))
          else none) := by
  obtain ⟨rfl, hfirst, hnext⟩ := h
  have hlen : (pre ++ beginMarker :: (mid ++ endMarker :: post)).length
      = pre.length + (mid.length + (post.length + 1) + 1) := by
    simp only [List.length_append, List.length_cons]
  have hend : endMarker ∉ beginMarker :: mid := by
    rw [List.mem_cons, not_or]
    exact ⟨endMarker_ne, hnext⟩
  have hidx : (beginMarker :: (mid ++ endMarker :: post)).idxOf endMarker
      = mid.length + 1 := idxOf_first hend post
  have htake : (pre ++ beginMarker :: (mid ++ endMarker :: post)).take
      (pre.length + 1) = pre ++ [beginMarker] := by
    rw [List.take_append, List.take_of_length_le (Nat.le_succ _)]
    simp
  have hdrop : (pre ++ beginMarker :: (mid ++ endMarker :: post)).drop
      (pre.length + (mid.length + 1)) = endMarker :: post := by
    rw [← List.drop_drop, List.drop_left]
    show (beginMarker :: mid ++ endMarker :: post).drop
      (beginMarker :: mid).length = _
    exact List.drop_left
  have hinsert := insertLines_eq capacity e.entries
    (pre ++ [beginMarker]) (endMarker :: post)
  rw [List.length_append, List.length_singleton, List.length_cons] at hinsert
  unfold GridMapfile.replaceLines
  simp only [idxOf_first hfirst, List.drop_left, hidx, htake, hdrop]
  rw [hlen] at hcap ⊢
  rw [if_neg (by omega), if_neg (by omega), hinsert (by omega)]
  have hiff : e.entries.length + (pre.length + 1 + (post.length + 1))
        ≤ capacity + 1
      ↔ e.entries.length ≤ mid.length + (capacity
        - (pre.length + (mid.length + (post.length + 1) + 1))) + 1 := by omega
  simp only [hiff, List.append_assoc, List.singleton_append]
  rfl

-- ========================================================== the round trip

/-- The entries of a file that can be read, or that is not there. -/
def Before (name : String) (old : Option Chars) (m : GridMap) : Prop :=
  match old with
  | none => m = ⟨name, .empty, .empty⟩
  | some _ => getEntries name old = .ok m

/-- If entries are written, they are read back as BDE's, and the system's
are those there were. -/
def RoundTrip (rt : Runtime) (name : String) (old : Option Chars)
    (m : GridMap) (e : Entries) : Prop :=
  match pushEntries rt name e old with
  | .written text => ∃ m', getEntries name (some text) = .ok m'
      ∧ m'.bdeEntries = e ∧ m'.systemEntries = m.systemEntries
  | .thrown _ _ => True
  | .undefined => False

/-- The two renamings work. -/
def Runtime.Renames (rt : Runtime) : Prop :=
  rt.backup = none ∧ rt.replace = none

/-- Around the section nothing counts as BDE's, and in it nothing as the
system's. -/
structure Apart (pre mid post : List Chars) : Prop where
  pre : ∀ r, readLines {} pre = .ok r → r.bdeEntries = .empty
  mid : ∀ r, readLines { system := false } mid = .ok r → r.systemEntries = .empty
  post : ∀ r, readLines {} post = .ok r → r.bdeEntries = .empty

/-- The files that take entries. -/
structure Takes (rt : Runtime) (old : Option Chars) (m : GridMap)
    (e : Entries) : Prop where
  absent : old = none → e = .empty
  plain : ∀ text, old = some text → beginMarker ∉ getlines text →
    rt.Renames →
      (∀ p ∈ e.entries, isCommentLine p.1 = true) ∧ m.bdeEntries = e
  room : ∀ text pre mid post, old = some text →
    Section (getlines text) pre mid post →
    e.entries.length ≤ mid.length
      + (rt.capacity (getlines text).length - (getlines text).length) + 1
  apart : ∀ text pre mid post, old = some text →
    Section (getlines text) pre mid post → rt.Renames → Apart pre mid post

/-- Entries are empty only if none was put in. -/
theorem emplaceAll_nil_iff {l : List Entry} :
    (.empty : Entries).emplaceAll l = .empty ↔ l = [] := by
  have h : (.empty : Entries).emplaceAll (l ++ [] ++ []) = .empty
      ↔ l = [] ∧ [] = [] := Multimap.emplaceAll_around .empty l []
  rw [List.append_nil, List.append_nil] at h
  exact h.trans (and_iff_left rfl)

/-- A file that is there is read line by line. -/
theorem getEntries_some (text : Chars) :
    getEntries name (some text) = (do
      let r ← readLines {} (getlines text)
      pure ⟨name, r.systemEntries, r.bdeEntries⟩) := rfl

/-- The entries of a file whose lines can be read. -/
theorem Reads.getEntries {text : Chars} {last : Bool} {ss bs : List Entry}
    (h : Reads true (getlines text) last ss bs) :
    getEntries name (some text) = .ok ⟨name, (.empty : Entries).emplaceAll ss,
      (.empty : Entries).emplaceAll bs⟩ := by
  rw [getEntries_some, h.run {} rfl]
  rfl

/-- And the other way round. -/
theorem reads_of_getEntries {text : Chars} {m : GridMap}
    (h : getEntries name (some text) = .ok m) :
    ∃ last ss bs, Reads true (getlines text) last ss bs := by
  rw [getEntries_some] at h
  cases hr : readLines {} (getlines text) with
  | error e =>
      rw [hr] at h
      cases h
  | ok r =>
      obtain ⟨ss, bs, hreads⟩ := reads_of_ok hr
      exact ⟨_, ss, bs, hreads⟩

/-- What the lines of a text give is known. -/
theorem Reads.exists_iff {text : Chars} {last : Bool} {ss bs : List Entry}
    (h : Reads true (getlines text) last ss bs) (e m : Entries) :
    (∃ m', GridMapfile.getEntries name (some text) = .ok m'
        ∧ m'.bdeEntries = e ∧ m'.systemEntries = m)
      ↔ (.empty : Entries).emplaceAll bs = e ∧ (.empty : Entries).emplaceAll ss = m := by
  constructor
  · intro ⟨m', hm, he, hs⟩
    rw [h.getEntries] at hm
    injection hm with hm
    subst hm
    exact ⟨he, hs⟩
  · intro ⟨he, hs⟩
    exact ⟨_, h.getEntries, he, hs⟩

/-- The markers are one line each. -/
theorem newline_marker : '\n' ∉ beginMarker ∧ '\n' ∉ endMarker := by
  decide +kernel

/-- A new section behind lines that can be read. -/
theorem round_trip_appended {last : Bool} {ss bs : List Entry}
    (h : Reads true lines last ss bs) (hlines : ∀ l ∈ lines, '\n' ∉ l)
    {e : Entries} (he : ∀ p ∈ e.entries, WellFormed p) :
    (∃ m', getEntries name (some (unlines (lines ++ newSection e))) = .ok m'
        ∧ m'.bdeEntries = e
        ∧ m'.systemEntries = (.empty : Entries).emplaceAll ss)
      ↔ (∀ p ∈ e.entries, isCommentLine p.1 = true)
        ∧ (.empty : Entries).emplaceAll bs = e := by
  have hback : getlines (unlines (lines ++ newSection e))
      = lines ++ newSection e := by
    apply getlines_unlines
    intro l hl
    obtain hl | hl := List.mem_append.mp hl
    · exact hlines l hl
    · unfold newSection at hl
      simp only [List.mem_append, List.mem_singleton, List.mem_map] at hl
      obtain (rfl | ⟨p, hp, rfl⟩) | rfl := hl
      · exact newline_marker.1
      · exact newline_plainLine (he p hp).newline
      · exact newline_marker.2
  have hsection : newSection e
      = beginMarker :: (e.entries.map plainLine ++ [endMarker]) := rfl
  have hknown : (∀ p ∈ e.entries, isCommentLine p.1 = true) →
      ((∃ m', getEntries name (some (unlines (lines ++ newSection e))) = .ok m'
          ∧ m'.bdeEntries = e
          ∧ m'.systemEntries = (.empty : Entries).emplaceAll ss)
        ↔ (.empty : Entries).emplaceAll bs = e) := by
    intro hcom
    obtain ⟨_, hplain⟩ := reads_plain he hcom false
    have hnew := h.append (reads_marker.1.mpr
      (hplain.append (reads_marker.2.mpr (.nil true))))
    rw [← hsection, ← hback, List.nil_append, List.append_nil,
      List.append_nil] at hnew
    rw [hnew.exists_iff]
    exact and_iff_left rfl
  constructor
  · intro hread
    obtain ⟨m', hm, -, -⟩ := id hread
    obtain ⟨_, _, _, hreads⟩ := reads_of_getEntries hm
    rw [hback] at hreads
    obtain ⟨_, _, _, _, _, -, hnew, -, -⟩ := hreads.split
    rw [hsection] at hnew
    obtain ⟨_, _, _, _, _, hplain, -, -, -⟩ := (reads_marker.1.mp hnew).split
    have hcom := (hplain.plain he).1
    exact ⟨hcom, (hknown hcom).mp hread⟩
  · intro ⟨hcom, hbde⟩
    exact (hknown hcom).mpr hbde

/-- A section with other lines in it. -/
theorem round_trip_replaced {last : Bool} {ss bs : List Entry}
    (h : Reads true lines last ss bs) (hlines : ∀ l ∈ lines, '\n' ∉ l)
    (hs : Section lines pre mid post)
    {e : Entries} (he : ∀ p ∈ e.entries, WellFormed p) :
    (∃ m', getEntries name (some (unlines (pre ++ beginMarker
          :: (e.entries.map quotedLine ++ endMarker :: post)))) = .ok m'
        ∧ m'.bdeEntries = e
        ∧ m'.systemEntries = (.empty : Entries).emplaceAll ss)
      ↔ Apart pre mid post := by
  obtain ⟨rfl, -, -⟩ := hs
  obtain ⟨last₁, ss₁, bs₁, _, _, hpre, hrest, rfl, rfl⟩ := h.split
  obtain ⟨_, ss₂, bs₂, ss₃, bs₃, hmid, hend, rfl, rfl⟩ :=
    (reads_marker.1.mp hrest).split
  have hpost := reads_marker.2.mp hend
  have hnew : Reads true (pre ++ beginMarker :: (e.entries.map quotedLine
      ++ endMarker :: post)) last (ss₁ ++ ([] ++ ss₃))
      (bs₁ ++ (e.entries ++ bs₃)) :=
    hpre.append (reads_marker.1.mpr
      ((reads_quoted he).append (reads_marker.2.mpr hpost)))
  have hback : getlines (unlines (pre ++ beginMarker
      :: (e.entries.map quotedLine ++ endMarker :: post)))
      = pre ++ beginMarker :: (e.entries.map quotedLine ++ endMarker :: post) := by
    apply getlines_unlines
    intro l hl
    simp only [List.mem_append, List.mem_cons, List.mem_map] at hl hlines
    obtain hl | rfl | ⟨p, hp, rfl⟩ | rfl | hl := hl
    · exact hlines l (.inl hl)
    · exact newline_marker.1
    · exact newline_quotedLine (he p hp).newline
    · exact newline_marker.2
    · exact hlines l (.inr (.inr (.inr (.inr hl))))
  have hsys : (.empty : Entries).emplaceAll (ss₁ ++ ss₃)
      = (.empty : Entries).emplaceAll (ss₁ ++ (ss₂ ++ ss₃)) ↔ ss₂ = [] := by
    rw [eq_comm, ← List.append_assoc, Multimap.emplaceAll_between]
  rw [← hback] at hnew
  rw [hnew.exists_iff, ← List.append_assoc, Multimap.emplaceAll_around,
    List.nil_append, hsys]
  constructor
  · intro ⟨⟨hb₁, hb₃⟩, hs₂⟩
    subst hb₁ hb₃ hs₂
    refine ⟨?_, ?_, ?_⟩
    · intro r hr
      rw [hpre.run {} rfl] at hr
      injection hr with hr
      subst hr
      rfl
    · intro r hr
      rw [hmid.run { system := false } rfl] at hr
      injection hr with hr
      subst hr
      rfl
    · intro r hr
      rw [hpost.run {} rfl] at hr
      injection hr with hr
      subst hr
      rfl
  · intro hapart
    have h₁ := hapart.pre _ (hpre.run {} rfl)
    have h₂ := hapart.mid _ (hmid.run { system := false } rfl)
    have h₃ := hapart.post _ (hpost.run {} rfl)
    exact ⟨⟨emplaceAll_nil_iff.mp h₁, emplaceAll_nil_iff.mp h₃⟩,
      emplaceAll_nil_iff.mp h₂⟩

variable {rt : Runtime} {text : Chars} {m : GridMap} {e : Entries}

/-- Lines are written if the two renamings work. -/
theorem roundTrip_written
    (h : replaceLines name (rt.capacity (getlines text).length) e
      (getlines text) = .ok (some lines)) :
    RoundTrip rt name (some text) m e
      ↔ (rt.Renames → ∃ m', getEntries name (some (unlines lines)) = .ok m'
        ∧ m'.bdeEntries = e ∧ m'.systemEntries = m.systemEntries) := by
  unfold RoundTrip pushEntries Runtime.Renames
  simp only [h]
  cases rt.backup with
  | some what => simp
  | none =>
      cases rt.replace with
      | some what => simp
      | none => simp

/-- Where the insertion is undefined, the file does not take the entries. -/
theorem roundTrip_undefined
    (h : replaceLines name (rt.capacity (getlines text).length) e
      (getlines text) = .ok none) : ¬ RoundTrip rt name (some text) m e := by
  unfold RoundTrip pushEntries
  simp only [h]
  exact id

/-- Where it throws, nothing is written, and nothing asked. -/
theorem roundTrip_thrown {what : String}
    (h : replaceLines name (rt.capacity (getlines text).length) e
      (getlines text) = .error what) : RoundTrip rt name (some text) m e := by
  unfold RoundTrip pushEntries
  simp only [h]

/-- No line has a newline in it. -/
theorem getlines_newline_free (text : Chars) :
    ∀ l ∈ getlines text, '\n' ∉ l := fun _ => newline_not_mem

/-- The section is appended. -/
theorem roundTrip_plain {last : Bool} {ss bs : List Entry}
    (h : Reads true (getlines text) last ss bs)
    (hb : beginMarker ∉ getlines text) (he : ∀ p ∈ e.entries, WellFormed p) :
    RoundTrip rt name (some text) ⟨name, (.empty : Entries).emplaceAll ss,
        (.empty : Entries).emplaceAll bs⟩ e
      ↔ (rt.Renames → (∀ p ∈ e.entries, isCommentLine p.1 = true)
        ∧ (.empty : Entries).emplaceAll bs = e) := by
  rw [roundTrip_written (replaceLines_absent hb e),
    round_trip_appended h (getlines_newline_free text) he]

/-- The section is replaced. -/
theorem roundTrip_section {last : Bool} {ss bs : List Entry}
    (h : Reads true (getlines text) last ss bs)
    (hs : Section (getlines text) pre mid post)
    (he : ∀ p ∈ e.entries, WellFormed p) :
    RoundTrip rt name (some text) ⟨name, (.empty : Entries).emplaceAll ss,
        (.empty : Entries).emplaceAll bs⟩ e
      ↔ e.entries.length ≤ mid.length
          + (rt.capacity (getlines text).length - (getlines text).length) + 1
        ∧ (rt.Renames → Apart pre mid post) := by
  have hlines : replaceLines name (rt.capacity (getlines text).length) e
      (getlines text) = _ := hs.replaceLines e (rt.size_le _)
  by_cases hroom : e.entries.length ≤ mid.length
      + (rt.capacity (getlines text).length - (getlines text).length) + 1
  · rw [if_pos hroom] at hlines
    rw [roundTrip_written hlines,
      round_trip_replaced h (getlines_newline_free text) hs he]
    exact (and_iff_right hroom).symm
  · rw [if_neg hroom] at hlines
    exact ⟨fun hround => absurd hround (roundTrip_undefined hlines),
      fun hcond => absurd hcond.1 hroom⟩

/-- A file takes entries if and only if they come back from it. -/
theorem round_trip_iff (rt : Runtime) (name : String) (old : Option Chars)
    (m : GridMap) (hold : Before name old m) (e : Entries)
    (he : ∀ p ∈ e.entries, WellFormed p) :
    RoundTrip rt name old m e ↔ Takes rt old m e := by
  cases old with
  | none =>
      have hm : m = ⟨name, .empty, .empty⟩ := hold
      subst hm
      have hround : RoundTrip rt name none ⟨name, .empty, .empty⟩ e
          ↔ (∀ p ∈ e.entries, isCommentLine p.1 = true) ∧ .empty = e :=
        round_trip_appended (.nil true)
          (fun _ hl => absurd hl List.not_mem_nil) he
      rw [hround]
      constructor
      · intro ⟨_, hnil⟩
        exact ⟨fun _ => hnil.symm, nofun, nofun, nofun⟩
      · intro htakes
        have hnil := htakes.absent rfl
        subst hnil
        exact ⟨fun _ hp => absurd hp List.not_mem_nil, rfl⟩
  | some text =>
      have hold : getEntries name (some text) = .ok m := hold
      obtain ⟨last, ss, bs, hreads⟩ := reads_of_getEntries hold
      rw [hreads.getEntries] at hold
      injection hold with hm
      subst hm
      constructor
      · intro hround
        refine ⟨nofun, ?_, ?_, ?_⟩
        · intro _ heq hb
          cases heq
          exact (roundTrip_plain hreads hb he).mp hround
        · intro _ pre mid post heq hs
          cases heq
          exact ((roundTrip_section hreads hs he).mp hround).1
        · intro _ pre mid post heq hs
          cases heq
          exact ((roundTrip_section hreads hs he).mp hround).2
      · intro htakes
        by_cases hb : beginMarker ∈ getlines text
        · obtain ⟨pre, rest, heq, hpre⟩ := List.eq_append_cons_of_mem hb
          by_cases hend : endMarker ∈ rest
          · obtain ⟨mid, post, hrest, hmid⟩ := List.eq_append_cons_of_mem hend
            have hs : Section (getlines text) pre mid post :=
              ⟨by rw [heq, hrest], hpre, hmid⟩
            exact (roundTrip_section hreads hs he).mpr
              ⟨htakes.room text pre mid post rfl hs,
                htakes.apart text pre mid post rfl hs⟩
          · -- the writer finds no end marker and throws
            obtain ⟨what, hwhat⟩ : ∃ what, replaceLines name
                (rt.capacity (getlines text).length) e
                (pre ++ beginMarker :: rest) = .error what :=
              replaceLines_open hpre hend e
            rw [← heq] at hwhat
            exact roundTrip_thrown hwhat
        · exact (roundTrip_plain hreads hb he).mpr (htakes.plain text rfl hb)

-- ============================================================= two files

/-- A vector that has no more room than it needs. -/
def tight : Runtime where
  capacity n := n
  size_le n := le_refl n

/-- One of the entries of the write test. -/
def testEntries : Entries where
  entries := [("/test/".toList, "user".toList)]
  sorted := List.pairwise_singleton _ _

/-- The sample entries can be written. -/
theorem testEntries_wellFormed : ∀ p ∈ testEntries.entries, WellFormed p := by
  intro p hp
  rw [List.mem_singleton.mp hp]
  refine ⟨by decide, by decide, by decide, by decide, ⟨?_, ?_⟩, ⟨?_, ?_⟩⟩ <;>
    (intro c hc; injection hc with hc; subst hc; decide)

/-- A new file with an entry cannot be read. -/
theorem round_trip_fails :
    ¬ ∀ (rt : Runtime) (name : String) (old : Option Chars) (m : GridMap),
      Before name old m → ∀ e : Entries, (∀ p ∈ e.entries, WellFormed p) →
        RoundTrip rt name old m e := by
  intro h
  obtain ⟨m', hm, -, -⟩ := h tight "grid-mapfile" none ⟨_, .empty, .empty⟩ rfl
    testEntries testEntries_wellFormed
  have hthrows : (getEntries "grid-mapfile"
      (some (unlines (newSection testEntries)))).isOk = false := by
    decide +kernel
  rw [hm] at hthrows
  cases hthrows

/-- A file with an empty section. -/
def emptySection : Chars := unlines [beginMarker, endMarker]

/-- The sample file has no entries. -/
theorem emptySection_read :
    Before "grid-mapfile" (some emptySection) ⟨"grid-mapfile", .empty, .empty⟩ := by
  have hlines : getlines emptySection = [beginMarker, endMarker] := by
    decide +kernel
  have hreads : Reads true (getlines emptySection) true [] [] := by
    rw [hlines]
    exact reads_marker.1.mpr (reads_marker.2.mpr (.nil true))
  exact hreads.getEntries

/-- An entry in the empty section. -/
theorem round_trip_empty_section :
    RoundTrip tight "grid-mapfile" (some emptySection)
        ⟨"grid-mapfile", .empty, .empty⟩ testEntries
      ↔ Takes tight (some emptySection) ⟨"grid-mapfile", .empty, .empty⟩ testEntries :=
  round_trip_iff tight "grid-mapfile" (some emptySection) _ emptySection_read
    testEntries testEntries_wellFormed

end GridMapfile

end BigDataExpress

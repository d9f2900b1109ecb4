/-
What a push does to the mapfile, and what is left if it fails.

The lines of a mapfile determine its new lines (`Updated`): a section is
the first begin marker and the first end marker behind it, and if there is
no begin marker the new section is appended. What is left are the files
with a section that is not closed, on which the push throws. The editing
is right as long as the vector of the lines has room for the entries: else
the second insertion behind the one that moves the vector uses a dangling
iterator (`pushFile_updated`, `pushFile_moved`).

From there on only the contents of three names matter, and two of the
operations can leave the wrong ones. The work file is not checked, and is
renamed even if it is empty, cut off or an old one. Between the two
renamings there is no mapfile, and if the second fails none comes back.
`push_preserves_iff` says when the lines are right, `push_safe_iff` when
the mapfile is. Where the work file is written in full and all names are
apart, the directory behaves as the one mapfile of `Agent.Gridmap`
(`handlePush_message`).
-/
import BigDataExpress.Proofs.GridMapfile
import BigDataExpress.Agent.Gridmap
import BigDataExpress.Utils.MapDirectory

namespace BigDataExpress

namespace GridMapfile

open Text

-- ========================================================= the new lines

/-- The lines of a mapfile before and after entries are pushed. -/
inductive Updated (e : Entries) : List Chars → List Chars → Prop
  | appended {lines : List Chars} : beginMarker ∉ lines →
      Updated e lines (lines ++ newSection e)
  | replaced {lines pre mid post : List Chars} : Section lines pre mid post →
      Updated e lines (pre ++ beginMarker :: (e.entries.map quotedLine
        ++ endMarker :: post))

/-- A begin marker without an end marker behind it. -/
def Unclosed (lines : List Chars) : Prop :=
  ∃ pre rest, lines = pre ++ beginMarker :: rest ∧ beginMarker ∉ pre
    ∧ endMarker ∉ rest

/-- The vector of the lines has room for the entries, but for the last. -/
def HasRoom (rt : Runtime) (e : Entries) (lines : List Chars) : Prop :=
  ∀ pre mid post, Section lines pre mid post →
    e.entries.length
      ≤ mid.length + (rt.capacity lines.length - lines.length) + 1

variable {e : Entries} {lines new pre mid post : List Chars}

/-- The lines can be updated, or have a section without an end. -/
theorem updated_or_unclosed (e : Entries) (lines : List Chars) :
    (∃ new, Updated e lines new) ∨ Unclosed lines := by
  by_cases hb : beginMarker ∈ lines
  · obtain ⟨pre, rest, heq, hpre⟩ := List.eq_append_cons_of_mem hb
    by_cases hend : endMarker ∈ rest
    · obtain ⟨mid, post, hrest, hmid⟩ := List.eq_append_cons_of_mem hend
      exact .inl ⟨_, .replaced ⟨by rw [heq, hrest], hpre, hmid⟩⟩
    · exact .inr ⟨pre, rest, heq, hpre, hend⟩
  · exact .inl ⟨_, .appended hb⟩

/-- A section has its marker. -/
theorem Section.begin_mem (h : Section lines pre mid post) :
    beginMarker ∈ lines := by
  rw [h.eq]
  exact List.mem_append_right pre (List.mem_cons_self ..)

/-- The parts of a file with a section, from its lines. -/
theorem Section.parts (h : Section lines pre mid post) :
    pre = lines.take (lines.idxOf beginMarker)
      ∧ mid ++ endMarker :: post = lines.drop (lines.idxOf beginMarker + 1) := by
  obtain ⟨rfl, hfirst, _⟩ := h
  rw [idxOf_first hfirst]
  refine ⟨(List.take_left ..).symm, ?_⟩
  rw [← List.drop_drop, List.drop_left]
  rfl

/-- A file has one section. -/
theorem Section.unique {pre' mid' post' : List Chars}
    (h : Section lines pre mid post) (h' : Section lines pre' mid' post') :
    pre = pre' ∧ mid = mid' ∧ post = post' := by
  have hpre : pre = pre' := h.parts.1.trans h'.parts.1.symm
  have hrest : mid ++ endMarker :: post = mid' ++ endMarker :: post' :=
    h.parts.2.trans h'.parts.2.symm
  have hlen : mid.length = mid'.length := by
    rw [← idxOf_first h.next post, hrest, idxOf_first h'.next post']
  obtain ⟨hmid, hpost⟩ := List.append_inj hrest hlen
  injection hpost with _ hpost
  exact ⟨hpre, hmid, hpost⟩

/-- A section with an end is not unclosed. -/
theorem Section.not_unclosed (h : Section lines pre mid post) :
    ¬ Unclosed lines := by
  rintro ⟨pre', rest, heq, hpre', hrest⟩
  have hpre : pre'.length = pre.length := by
    rw [← idxOf_first hpre' rest, ← heq, h.eq, idxOf_first h.first]
  obtain ⟨_, htail⟩ := List.append_inj (heq.symm.trans h.eq) hpre
  injection htail with _ htail
  rw [htail] at hrest
  exact hrest (List.mem_append_right mid (List.mem_cons_self ..))

/-- A file has one update. -/
theorem Updated.unique {new' : List Chars} (h : Updated e lines new)
    (h' : Updated e lines new') : new = new' := by
  cases h with
  | appended hb =>
      cases h' with
      | appended _ => rfl
      | replaced hs => exact absurd hs.begin_mem hb
  | replaced hs =>
      cases h' with
      | appended hb => exact absurd hs.begin_mem hb
      | replaced hs' =>
          obtain ⟨rfl, _, rfl⟩ := hs.unique hs'
          rfl

/-- Nor are lines that can be updated. -/
theorem Updated.not_unclosed (h : Updated e lines new) : ¬ Unclosed lines := by
  cases h with
  | appended hb =>
      intro ⟨pre, rest, heq, _⟩
      rw [heq] at hb
      exact hb (List.mem_append_right pre (List.mem_cons_self ..))
  | replaced hs => exact hs.not_unclosed

/-- There is room in the vector for a section that is not much longer. -/
theorem hasRoom_section {rt : Runtime} (h : Section lines pre mid post) :
    HasRoom rt e lines ↔ e.entries.length
      ≤ mid.length + (rt.capacity lines.length - lines.length) + 1 := by
  constructor
  · intro hroom
    exact hroom pre mid post h
  · intro hle pre' mid' post' h'
    obtain ⟨_, rfl, _⟩ := h.unique h'
    exact hle

/-- The lines that are written are the update, if there is room. -/
theorem Updated.replaceLines {name : String} {rt : Runtime}
    (h : Updated e lines new) :
    (HasRoom rt e lines →
        replaceLines name (rt.capacity lines.length) e lines = .ok (some new))
      ∧ (¬ HasRoom rt e lines →
        replaceLines name (rt.capacity lines.length) e lines = .ok none) := by
  cases h with
  | appended hb =>
      refine ⟨fun _ => replaceLines_absent hb e, ?_⟩
      intro hroom
      exact absurd (fun _ _ _ hs => absurd hs.begin_mem hb) hroom
  | replaced hs =>
      rw [hasRoom_section hs, hs.replaceLines e (rt.size_le _)]
      refine ⟨fun hroom => ?_, fun hroom => ?_⟩
      · rw [if_pos hroom]
      · rw [if_neg hroom]

-- ============================================================ the outcome

section Outcome

variable {sys : System} {m : Mapfile} {d : Files} {text : Chars}

/-- A file with an unclosed section is refused, and nothing is written. -/
theorem pushFile_unclosed (hold : d m.canonical = some text)
    (h : Unclosed (getlines text)) :
    ∃ what, pushFile sys m e d = (.thrown what, d) := by
  obtain ⟨pre, rest, heq, hpre, hrest⟩ := h
  obtain ⟨what, hwhat⟩ : ∃ what, replaceLines (String.ofList m.canonical)
      (sys.capacity (getlines text).length) e (pre ++ beginMarker :: rest)
      = .error what := replaceLines_open hpre hrest e
  rw [← heq] at hwhat
  unfold pushFile
  rw [hold]
  simp only [hwhat]
  exact ⟨what, rfl⟩

/-- A file that can be updated is written anew and exchanged. -/
theorem pushFile_updated (hold : d m.canonical = some text)
    (h : Updated e (getlines text) new)
    (hroom : HasRoom sys.toRuntime e (getlines text)) :
    pushFile sys m e d
      = exchange sys m (d.write m.workingFile (unlines new) sys.write) := by
  unfold pushFile
  rw [hold]
  simp only [h.replaceLines.1 hroom]

/-- Without room the insertion is undefined, before anything is written. -/
theorem pushFile_moved (hold : d m.canonical = some text)
    (h : Updated e (getlines text) new)
    (hroom : ¬ HasRoom sys.toRuntime e (getlines text)) :
    pushFile sys m e d = (.undefined, d) := by
  unfold pushFile
  rw [hold]
  simp only [h.replaceLines.2 hroom]

-- ========================================================== the renames

/-- Names of files in one directory. -/
theorem joinPaths_inj {a b c : PathName} (ha : a ≠ []) (hb : b ≠ [])
    (hc : c ≠ []) (hb' : trimBack (trimFront b) ≠ ['/'])
    (hc' : trimBack (trimFront c) ≠ ['/']) (h : joinPaths a b = joinPaths a c) :
    trimBack (trimFront b) = trimBack (trimFront c) := by
  unfold joinPaths at h
  simp only [if_neg ha, if_neg hb, if_neg hc, if_neg hb', if_neg hc'] at h
  by_cases hroot : trimBack a = ['/']
  · rw [if_pos hroot, if_pos hroot] at h
    exact List.append_cancel_left h
  · rw [if_neg hroot, if_neg hroot] at h
    injection List.append_cancel_left h

/-- The save file and the work file are two files. -/
theorem saveFile_ne_workingFile (m : Mapfile) : m.saveFile ≠ m.workingFile := by
  intro h
  have hdir : m.dirName ≠ [] := List.append_ne_nil_of_right_ne_nil _ (by decide)
  have heq := joinPaths_inj hdir (by decide) (by decide) (by decide)
    (by decide) h
  exact absurd heq (by decide)

/-- A rename that the system refuses. -/
theorem rename_failed {old new : PathName} {what : String} :
    d.rename old new (some what) = .error what := rfl

/-- A rename of a file that is not there. -/
theorem rename_missing {old new : PathName} (h : d old = none) :
    ∃ what, d.rename old new none = .error what := by
  unfold Files.rename
  rw [if_pos h]
  exact ⟨_, rfl⟩

/-- A rename to the same name does nothing. -/
theorem rename_self {name : PathName} (h : d name ≠ none) :
    d.rename name name none = .ok d := by
  unfold Files.rename
  rw [if_neg h, if_pos rfl]

/-- A file that is renamed is gone from its old name, and no third file
changes. -/
theorem rename_moved {old new : PathName} {c : Chars} (h : d old = some c)
    (hne : old ≠ new) :
    ∃ d', d.rename old new none = .ok d' ∧ d' old = none ∧ d' new = some c
      ∧ ∀ n, n ≠ old → n ≠ new → d' n = d n := by
  unfold Files.rename
  rw [if_neg (by rw [h]; exact Option.some_ne_none c), if_neg hne]
  refine ⟨_, rfl, Function.update_self .., ?_, ?_⟩
  · rw [Function.update_of_ne hne.symm, Function.update_self, h]
  · intro n hold hnew
    rw [Function.update_of_ne hold, Function.update_of_ne hnew]

/-- If the old file is not put aside, it stays. -/
theorem exchange_kept {e : String}
    (h : d.rename m.canonical m.saveFile sys.backup = .error e) :
    ∃ what, exchange sys m d = (.thrown what, d) := by
  unfold exchange
  rw [h]
  exact ⟨_, rfl⟩

/-- If the new file is not put in its place, the old one is aside only. -/
theorem exchange_stuck {d₁ : Files} {e : String}
    (h : d.rename m.canonical m.saveFile sys.backup = .ok d₁)
    (h₁ : d₁.rename m.workingFile m.canonical sys.replace = .error e) :
    ∃ what, exchange sys m d = (.thrown what, d₁) := by
  unfold exchange
  simp only [h, h₁]
  exact ⟨_, rfl⟩

/-- Otherwise the new file is in its place. -/
theorem exchange_done {d₁ d₂ : Files}
    (h : d.rename m.canonical m.saveFile sys.backup = .ok d₁)
    (h₁ : d₁.rename m.workingFile m.canonical sys.replace = .ok d₂) :
    exchange sys m d = (.returned, d₂) := by
  unfold exchange
  simp only [h, h₁]

/-- The second renaming: it fails, or the mapfile has the content of the
work file. -/
theorem replace_cases (sys : System) (d : Files)
    (hne : m.canonical ≠ m.workingFile) :
    ((sys.replace ≠ none ∨ d m.workingFile = none)
        ∧ ∃ e, d.rename m.workingFile m.canonical sys.replace = .error e)
    ∨ (sys.replace = none ∧ ∃ w d', d m.workingFile = some w
        ∧ d.rename m.workingFile m.canonical sys.replace = .ok d'
        ∧ d' m.canonical = some w) := by
  cases hr : sys.replace with
  | some e => exact .inl ⟨.inl (Option.some_ne_none e), e, rename_failed⟩
  | none =>
      cases hw : d m.workingFile with
      | none => exact .inl ⟨.inr rfl, rename_missing hw⟩
      | some w =>
          obtain ⟨d', hren, _, hnew, _⟩ := rename_moved hw (Ne.symm hne)
          exact .inr ⟨rfl, w, d', rfl, hren, hnew⟩

/-- The four outcomes of the two renamings: the first fails and nothing
has changed; the second fails, after the mapfile was renamed to itself, or
after it was moved and is missing; both work. -/
theorem exchange_cases (sys : System) (hd : d m.canonical = some text) :
    (sys.backup ≠ none ∧ ∃ what, exchange sys m d = (.thrown what, d))
    ∨ (sys.backup = none ∧ m.canonical = m.saveFile
        ∧ (sys.replace ≠ none ∨ d m.workingFile = none)
        ∧ ∃ what, exchange sys m d = (.thrown what, d))
    ∨ (sys.backup = none ∧ m.canonical ≠ m.saveFile
        ∧ (m.canonical = m.workingFile ∨ sys.replace ≠ none
          ∨ d m.workingFile = none)
        ∧ ∃ what d', exchange sys m d = (.thrown what, d')
          ∧ d' m.canonical = none)
    ∨ (sys.backup = none ∧ sys.replace = none ∧ m.canonical ≠ m.workingFile
        ∧ ∃ w d', d m.workingFile = some w
          ∧ exchange sys m d = (.returned, d') ∧ d' m.canonical = some w) := by
  cases hb : sys.backup with
  | some e =>
      have hfail : d.rename m.canonical m.saveFile sys.backup = .error e := by
        rw [hb]
        exact rename_failed
      exact .inl ⟨Option.some_ne_none e, exchange_kept hfail⟩
  | none =>
      by_cases hsave : m.canonical = m.saveFile
      · have hwork : m.canonical ≠ m.workingFile := by
          rw [hsave]
          exact saveFile_ne_workingFile m
        have hren : d.rename m.canonical m.saveFile sys.backup = .ok d := by
          rw [hb, ← hsave]
          apply rename_self
          rw [hd]
          exact Option.some_ne_none text
        rcases replace_cases sys d hwork with
          ⟨hwhy, e, hfail⟩ | ⟨hr, w, d', hw, hren', hnew⟩
        · exact .inr (.inl ⟨rfl, hsave, hwhy, exchange_stuck hren hfail⟩)
        · exact .inr (.inr (.inr ⟨rfl, hr, hwork, w, d', hw,
            exchange_done hren hren', hnew⟩))
      · obtain ⟨d₁, hren, hgone, _, hother⟩ := rename_moved hd hsave
        rw [← hb] at hren
        by_cases hwork : m.canonical = m.workingFile
        · obtain ⟨e, hfail⟩ : ∃ e, d₁.rename m.workingFile m.canonical
              sys.replace = .error e := by
            cases sys.replace with
            | some e => exact ⟨e, rename_failed⟩
            | none => exact rename_missing (hwork ▸ hgone)
          obtain ⟨what, hwhat⟩ := exchange_stuck hren hfail
          exact .inr (.inr (.inl ⟨rfl, hsave, .inl hwork, what, d₁, hwhat,
            hgone⟩))
        · have hsame : d₁ m.workingFile = d m.workingFile :=
            hother _ (Ne.symm hwork) (saveFile_ne_workingFile m).symm
          rcases replace_cases sys d₁ hwork with
            ⟨hwhy, e, hfail⟩ | ⟨hr, w, d', hw, hren', hnew⟩
          · obtain ⟨what, hwhat⟩ := exchange_stuck hren hfail
            rw [hsame] at hwhy
            exact .inr (.inr (.inl ⟨rfl, hsave, .inr hwhy, what, d₁, hwhat,
              hgone⟩))
          · exact .inr (.inr (.inr ⟨rfl, hr, hwork, w, d', hsame ▸ hw,
              exchange_done hren hren', hnew⟩))

-- ========================================================== the work file

/-- A write touches no other file. -/
theorem write_other {name n : PathName} (w : Write) (h : n ≠ name) :
    d.write name text w n = d n := by
  cases w with
  | refused => rfl
  | stored k => exact Function.update_of_ne h _ _

/-- A write that is cut off leaves what was stored. -/
theorem write_stored (name : PathName) (k : Nat) :
    d.write name text (.stored k) name = some (text.take k) :=
  Function.update_self ..

/-- A file that is there is there after a write. -/
theorem write_some {n : PathName} {c : Chars} (h : d n = some c)
    (name : PathName) (t : Chars) (w : Write) :
    ∃ c', d.write name t w n = some c' := by
  by_cases hn : n = name
  · subst hn
    cases w with
    | refused => exact ⟨c, h⟩
    | stored k => exact ⟨_, write_stored n k⟩
  · exact ⟨c, (write_other w hn).trans h⟩

/-- A text is whole if nothing was cut off. -/
theorem take_eq_iff (t : Chars) (n : Nat) : t.take n = t ↔ t.length ≤ n := by
  refine ⟨?_, List.take_of_length_le⟩
  intro h
  have hlen := congrArg List.length h
  rw [List.length_take] at hlen
  omega

/-- What is in the work file, if it is there, are the new lines. -/
def Legible (sys : System) (m : Mapfile) (d : Files) (new : List Chars) : Prop :=
  match sys.write with
  | .refused => ∀ w, d m.workingFile = some w → getlines w = new
  | .stored n => (unlines new).length ≤ n
      ∨ ((unlines new).length = n + 1 ∧ new.getLast? ≠ some [])

/-- What is stored reads as the new lines. -/
theorem legible_iff (hfree : ∀ l ∈ new, '\n' ∉ l) :
    Legible sys m d new ↔ ∀ w, d.write m.workingFile (unlines new) sys.write
      m.workingFile = some w → getlines w = new := by
  unfold Legible
  cases sys.write with
  | refused => exact Iff.rfl
  | stored n =>
      simp only [write_stored, ← getlines_take_unlines hfree n]
      exact ⟨fun h w hw => Option.some.inj hw ▸ h, fun h => h _ rfl⟩

/-- The work file has the new text, all of it. -/
def Complete (sys : System) (m : Mapfile) (d : Files) (new : List Chars) : Prop :=
  match sys.write with
  | .refused => d m.workingFile = some (unlines new)
  | .stored n => (unlines new).length ≤ n

/-- What is stored is the whole text. -/
theorem complete_iff : Complete sys m d new
    ↔ d.write m.workingFile (unlines new) sys.write m.workingFile
      = some (unlines new) := by
  unfold Complete
  cases sys.write with
  | refused => exact Iff.rfl
  | stored n =>
      rw [write_stored, Option.some.injEq, take_eq_iff]

/-- An exchange after a write: the mapfile has its old content, or it is
the work file itself. -/
theorem write_old (hold : d m.canonical = some text)
    (hne : m.canonical ≠ m.workingFile) (t : Chars) (w : Write) :
    d.write m.workingFile t w m.canonical = some text :=
  (write_other w hne).trans hold

/-- The exchange itself is never undefined. -/
theorem exchange_defined (hd : d m.canonical = some text) :
    (exchange sys m d).1 ≠ .undefined := by
  rcases exchange_cases sys hd with ⟨_, what, h⟩ | ⟨_, _, _, what, h⟩
    | ⟨_, _, _, what, d', h, _⟩ | ⟨_, _, _, w, d', _, h, _⟩ <;>
  · rw [h]
    exact nofun

/-- What an exchange leaves when it returns. -/
theorem exchange_returned (hd : d m.canonical = some text)
    (h : (exchange sys m d).1 = .returned) :
    sys.backup = none ∧ sys.replace = none ∧ m.canonical ≠ m.workingFile
      ∧ ∃ w, d m.workingFile = some w
        ∧ (exchange sys m d).2 m.canonical = some w := by
  rcases exchange_cases sys hd with ⟨_, what, heq⟩ | ⟨_, _, _, what, heq⟩
    | ⟨_, _, _, what, d', heq, _⟩ | ⟨hb, hr, hne, w, d', hw, heq, hnew⟩
  · rw [heq] at h
    cases h
  · rw [heq] at h
    cases h
  · rw [heq] at h
    cases h
  · refine ⟨hb, hr, hne, w, hw, ?_⟩
    rw [heq]
    exact hnew

/-- If both renamings work, and there is a work file, it returns. -/
theorem exchange_returns {w : Chars} (hd : d m.canonical = some text)
    (hb : sys.backup = none) (hr : sys.replace = none)
    (hne : m.canonical ≠ m.workingFile) (hw : d m.workingFile = some w) :
    (exchange sys m d).1 = .returned := by
  rcases exchange_cases sys hd with ⟨hb', _⟩ | ⟨_, _, hr' | hw', _⟩
    | ⟨_, _, hne' | hr' | hw', _⟩ | ⟨_, _, _, _, d', _, heq, _⟩
  · exact absurd hb hb'
  · exact absurd hr hr'
  · rw [hw] at hw'
    cases hw'
  · exact absurd hne' hne
  · exact absurd hr hr'
  · rw [hw] at hw'
    cases hw'
  · rw [heq]

-- ============================================================= the lines

/-- A push keeps the lines that are not its own: what it returns with are
the new lines, and a section that is not closed is an error that leaves
all files alone. -/
structure Preserved (sys : System) (m : Mapfile) (e : Entries) (d : Files)
    (text : Chars) : Prop where
  defined : (pushFile sys m e d).1 ≠ .undefined
  returned : (pushFile sys m e d).1 = .returned →
    ∃ after, (pushFile sys m e d).2 m.canonical = some after
      ∧ Updated e (getlines text) (getlines after)
  unclosed : Unclosed (getlines text) →
    ∃ what, pushFile sys m e d = (.thrown what, d)

/-- There is room for the entries, and what a push that returns has
written are the new lines. -/
structure Lossless (sys : System) (m : Mapfile) (e : Entries) (d : Files)
    (text : Chars) : Prop where
  room : HasRoom sys.toRuntime e (getlines text)
  work : ∀ new, Updated e (getlines text) new → sys.backup = none →
    sys.replace = none → m.canonical ≠ m.workingFile → Legible sys m d new

/-- Without room there is a section, and so there are new lines. -/
theorem updated_of_moved {rt : Runtime} (h : ¬ HasRoom rt e lines) :
    ∃ new, Updated e lines new := by
  rcases updated_or_unclosed e lines with hnew | hunclosed
  · exact hnew
  · exact absurd (fun _ _ _ hs => absurd hunclosed hs.not_unclosed) h

/-- A push that is defined had room. -/
theorem hasRoom_of_defined (hold : d m.canonical = some text)
    (h : (pushFile sys m e d).1 ≠ .undefined) :
    HasRoom sys.toRuntime e (getlines text) := by
  by_contra hroom
  obtain ⟨new, hnew⟩ := updated_of_moved hroom
  rw [pushFile_moved hold hnew hroom] at h
  exact h rfl

/-- New lines have no newlines in them. -/
theorem Updated.newline_free (h : Updated e lines new)
    (hlines : ∀ l ∈ lines, '\n' ∉ l)
    (he : ∀ p ∈ e.entries, '\n' ∉ p.1 ++ p.2) : ∀ l ∈ new, '\n' ∉ l := by
  intro l hl
  cases h with
  | appended _ =>
      unfold newSection at hl
      simp only [List.mem_append, List.mem_singleton, List.mem_map] at hl
      rcases hl with hl | ((rfl | ⟨p, hp, rfl⟩) | rfl)
      · exact hlines l hl
      · exact newline_marker.1
      · exact newline_plainLine (he p hp)
      · exact newline_marker.2
  | replaced hs =>
      obtain ⟨rfl, _, _⟩ := hs
      simp only [List.mem_append, List.mem_cons, List.mem_map] at hl hlines
      rcases hl with hl | rfl | ⟨p, hp, rfl⟩ | rfl | hl
      · exact hlines l (.inl hl)
      · exact newline_marker.1
      · exact newline_quotedLine (he p hp)
      · exact newline_marker.2
      · exact hlines l (.inr (.inr (.inr (.inr hl))))

/-- A push keeps the lines if and only if it is lossless. -/
theorem push_preserves_iff (sys : System) (m : Mapfile) (e : Entries)
    (d : Files) (text : Chars) (hold : d m.canonical = some text)
    (he : ∀ p ∈ e.entries, '\n' ∉ p.1 ++ p.2) :
    Preserved sys m e d text ↔ Lossless sys m e d text := by
  have hfree : ∀ {new}, Updated e (getlines text) new → ∀ l ∈ new, '\n' ∉ l :=
    fun hnew => hnew.newline_free (getlines_newline_free text) he
  constructor
  · intro h
    have hroom := hasRoom_of_defined hold h.defined
    refine ⟨hroom, ?_⟩
    intro new hnew hb hr hne
    rw [legible_iff (hfree hnew)]
    intro w hw
    have hret := h.returned
    rw [pushFile_updated hold hnew hroom] at hret
    have hdone := exchange_returns (write_old hold hne _ _) hb hr hne hw
    obtain ⟨after, hafter, hupdated⟩ := hret hdone
    obtain ⟨_, _, _, w', hw', hcontent⟩ :=
      exchange_returned (write_old hold hne _ _) hdone
    have hsame : after = w := by
      rw [hafter] at hcontent
      rw [hw] at hw'
      exact (Option.some.inj hcontent).trans (Option.some.inj hw').symm
    rw [← hsame]
    exact hupdated.unique hnew
  · intro h
    refine ⟨?_, ?_, pushFile_unclosed hold⟩
    · rcases updated_or_unclosed e (getlines text) with ⟨new, hnew⟩ | hopen
      · obtain ⟨c, hc⟩ := write_some hold m.workingFile (unlines new)
          sys.write
        rw [pushFile_updated hold hnew h.room]
        exact exchange_defined hc
      · obtain ⟨what, hwhat⟩ := pushFile_unclosed hold hopen
        rw [hwhat]
        exact nofun
    · intro hret
      rcases updated_or_unclosed e (getlines text) with ⟨new, hnew⟩ | hopen
      · obtain ⟨c, hc⟩ := write_some hold m.workingFile (unlines new)
          sys.write
        rw [pushFile_updated hold hnew h.room] at hret ⊢
        obtain ⟨hb, hr, hne, w, hw, hcontent⟩ := exchange_returned hc hret
        refine ⟨w, hcontent, ?_⟩
        rw [(legible_iff (hfree hnew)).mp (h.work new hnew hb hr hne) w hw]
        exact hnew
      · obtain ⟨what, hwhat⟩ := pushFile_unclosed hold hopen
        rw [hwhat] at hret
        cases hret

/-- The agent answers that it is done only if the entries of the message
are in the mapfile. -/
theorem handlePush_done {pairs : List Entry}
    (h : Preserved sys m ((.empty : Entries).emplaceAll pairs) d text)
    (hdone : (handlePushGridmapEntries sys m (some pairs) d).1
      = some (0, "OK")) :
    ∃ after, (handlePushGridmapEntries sys m (some pairs) d).2 m.canonical
        = some after
      ∧ Updated ((.empty : Entries).emplaceAll pairs) (getlines text)
        (getlines after) := by
  have hret := h.returned
  rcases hr : pushFile sys m ((.empty : Entries).emplaceAll pairs) d with
    ⟨ending, after⟩
  unfold handlePushGridmapEntries at hdone ⊢
  simp only [hr] at hret hdone ⊢
  cases ending with
  | returned => exact hret rfl
  | thrown what => simp at hdone
  | undefined => simp at hdone

-- =========================================================== the mapfile

/-- After a push there is a mapfile: the new one if it returns, and if it
throws the new or the old one. -/
def Unharmed (sys : System) (m : Mapfile) (e : Entries) (d : Files)
    (text : Chars) : Prop :=
  match pushFile sys m e d with
  | (.returned, after) => ∃ new, Updated e (getlines text) new
      ∧ after m.canonical = some (unlines new)
  | (.thrown _, after) => after m.canonical = some text
      ∨ ∃ new, Updated e (getlines text) new
        ∧ after m.canonical = some (unlines new)
  | (.undefined, _) => False

/-- The failures a push of these lines survives. A mapfile that has the
name of the save file is not moved; one that has the name of the work file
is overwritten, and lost if it is moved. -/
structure Survives (sys : System) (m : Mapfile) (d : Files) (text : Chars)
    (new : List Chars) : Prop where
  apart : m.canonical ≠ m.saveFile → m.canonical ≠ m.workingFile →
    sys.backup = none → sys.replace = none ∧ Complete sys m d new
  save : m.canonical = m.saveFile → sys.backup = none → sys.replace = none →
    (sys.write = .refused ∧ d m.workingFile = none) ∨ Complete sys m d new
  work : m.canonical = m.workingFile → sys.backup ≠ none
    ∧ ∀ n, sys.write = .stored n →
      (unlines new).take n = text ∨ (unlines new).length ≤ n

/-- What must not go wrong for the file to survive a push. -/
structure Survivable (sys : System) (m : Mapfile) (e : Entries) (d : Files)
    (text : Chars) : Prop where
  room : HasRoom sys.toRuntime e (getlines text)
  survives : ∀ new, Updated e (getlines text) new → Survives sys m d text new

/-- What an exchange must leave. -/
def Leaves (m : Mapfile) (old new : Chars) (r : Ending × Files) : Prop :=
  (r.1 = .returned ∧ r.2 m.canonical = some new)
    ∨ (∃ what, r.1 = .thrown what)
      ∧ (r.2 m.canonical = some old ∨ r.2 m.canonical = some new)

/-- With room and lines to be updated, it is the exchange that counts. -/
theorem unharmed_iff (hold : d m.canonical = some text)
    (hnew : Updated e (getlines text) new)
    (hroom : HasRoom sys.toRuntime e (getlines text)) :
    Unharmed sys m e d text ↔ Leaves m text (unlines new)
      (exchange sys m (d.write m.workingFile (unlines new) sys.write)) := by
  have hall : ∀ c : Option Chars, (∃ new', Updated e (getlines text) new'
      ∧ c = some (unlines new')) ↔ c = some (unlines new) := by
    intro c
    constructor
    · rintro ⟨new', hnew', hc⟩
      rw [hc, hnew'.unique hnew]
    · intro hc
      exact ⟨new, hnew, hc⟩
  unfold Unharmed Leaves
  rw [pushFile_updated hold hnew hroom]
  generalize exchange sys m _ = r
  obtain ⟨ending, after⟩ := r
  cases ending with
  | returned => simp [hall]
  | thrown what => simp [hall]
  | undefined => simp

/-- An exchange of a mapfile that is in a file of its own. -/
theorem leaves_apart_iff (old t : Chars) (hd : d m.canonical = some old)
    (hs : m.canonical ≠ m.saveFile) (hw : m.canonical ≠ m.workingFile) :
    Leaves m old t (exchange sys m d)
      ↔ (sys.backup = none → sys.replace = none
        ∧ d m.workingFile = some t) := by
  unfold Leaves
  rcases exchange_cases sys hd with ⟨hb, what, heq⟩ | ⟨_, hsave, _⟩
    | ⟨hb, _, hwhy, what, d', heq, hgone⟩ | ⟨hb, hr, _, w, d', hwork, heq, hnew⟩
  · rw [heq]
    simp [hb, hd]
  · exact absurd hsave hs
  · rw [heq]
    have hnot : ¬ (sys.replace = none ∧ d m.workingFile = some t) := by
      rintro ⟨hr, ht⟩
      rcases hwhy with hwhy | hwhy | hwhy
      · exact hw hwhy
      · exact hwhy hr
      · rw [ht] at hwhy
        cases hwhy
    simp [hgone, hb, hnot]
  · rw [heq]
    simp [hnew, hb, hr, hwork]

/-- Of one that has the name of the save file. -/
theorem leaves_save_iff (old t : Chars) (hd : d m.canonical = some old)
    (hs : m.canonical = m.saveFile) :
    Leaves m old t (exchange sys m d)
      ↔ (sys.backup = none → sys.replace = none →
        d m.workingFile = none ∨ d m.workingFile = some t) := by
  unfold Leaves
  rcases exchange_cases sys hd with ⟨hb, what, heq⟩
    | ⟨hb, _, hwhy, what, heq⟩ | ⟨_, hsave, _⟩
    | ⟨hb, hr, _, w, d', hwork, heq, hnew⟩
  · rw [heq]
    simp [hb, hd]
  · rw [heq]
    have hcond : sys.replace = none →
        d m.workingFile = none ∨ d m.workingFile = some t := by
      intro hr
      rcases hwhy with hwhy | hwhy
      · exact absurd hr hwhy
      · exact .inl hwhy
    exact iff_of_true (.inr ⟨⟨what, rfl⟩, .inl hd⟩) fun _ => hcond
  · exact absurd hs hsave
  · rw [heq]
    simp [hnew, hb, hr, hwork]

/-- Of one that is the work file, and has been written. -/
theorem leaves_work_iff {c : Chars} (old t : Chars)
    (hd : d m.canonical = some c) (hw : m.canonical = m.workingFile) :
    Leaves m old t (exchange sys m d)
      ↔ sys.backup ≠ none ∧ (c = old ∨ c = t) := by
  unfold Leaves
  rcases exchange_cases sys hd with ⟨hb, what, heq⟩ | ⟨_, hsave, _⟩
    | ⟨hb, _, _, what, d', heq, hgone⟩ | ⟨_, _, hne, _⟩
  · rw [heq]
    simp [hb, hd]
  · rw [hsave] at hw
    exact absurd hw (saveFile_ne_workingFile m)
  · rw [heq]
    simp [hgone, hb]
  · exact absurd hw hne

/-- No working file is there only if none was, and none could be opened. -/
theorem write_none_iff (t : Chars) :
    d.write m.workingFile t sys.write m.workingFile = none
      ↔ sys.write = .refused ∧ d m.workingFile = none := by
  cases sys.write with
  | refused => simp [Files.write]
  | stored n => simp [write_stored]

/-- The exchange leaves an old or a new file if it survives. -/
theorem leaves_iff (hold : d m.canonical = some text) (new : List Chars) :
    Leaves m text (unlines new)
        (exchange sys m (d.write m.workingFile (unlines new) sys.write))
      ↔ Survives sys m d text new := by
  by_cases hw : m.canonical = m.workingFile
  · have hs : m.canonical ≠ m.saveFile := by
      rw [hw]
      exact (saveFile_ne_workingFile m).symm
    have hiff : Survives sys m d text new ↔ sys.backup ≠ none
        ∧ ∀ n, sys.write = .stored n →
          (unlines new).take n = text ∨ (unlines new).length ≤ n :=
      ⟨fun h => h.work hw, fun h =>
        ⟨fun _ hne => absurd hw hne, fun hsave => absurd hsave hs, fun _ => h⟩⟩
    rw [hiff]
    cases hwrite : sys.write with
    | refused =>
        rw [leaves_work_iff text _ (show d.write m.workingFile _ .refused
          m.canonical = some text from hold) hw]
        simp
    | stored n =>
        rw [leaves_work_iff text _ (show d.write m.workingFile _ (.stored n)
          m.canonical = some _ by rw [hw]; exact write_stored _ n) hw]
        rw [take_eq_iff]
        simp
  · have hd := write_old hold hw (unlines new) sys.write
    by_cases hs : m.canonical = m.saveFile
    · rw [leaves_save_iff text _ hd hs, write_none_iff, ← complete_iff]
      exact ⟨fun h => ⟨fun hne => absurd hs hne, fun _ => h,
        fun heq => absurd heq hw⟩, fun h => h.save hs⟩
    · rw [leaves_apart_iff text _ hd hs hw, ← complete_iff]
      exact ⟨fun h => ⟨fun _ _ => h, fun heq => absurd heq hs,
        fun heq => absurd heq hw⟩, fun h => h.apart hs hw⟩

/-- There is a mapfile after a push if and only if its failures can be
survived. -/
theorem push_safe_iff (sys : System) (m : Mapfile) (e : Entries) (d : Files)
    (text : Chars) (hold : d m.canonical = some text) :
    Unharmed sys m e d text ↔ Survivable sys m e d text := by
  constructor
  · intro h
    have hroom : HasRoom sys.toRuntime e (getlines text) := by
      apply hasRoom_of_defined hold
      intro hundefined
      unfold Unharmed at h
      split at h
      · rename_i heq
        rw [heq] at hundefined
        cases hundefined
      · rename_i heq
        rw [heq] at hundefined
        cases hundefined
      · exact h
    refine ⟨hroom, ?_⟩
    intro new hnew
    exact (leaves_iff hold new).mp ((unharmed_iff hold hnew hroom).mp h)
  · intro h
    rcases updated_or_unclosed e (getlines text) with ⟨new, hnew⟩ | hopen
    · exact (unharmed_iff hold hnew h.room).mpr
        ((leaves_iff hold new).mpr (h.survives new hnew))
    · obtain ⟨what, hwhat⟩ : ∃ what, pushFile sys m e d = (.thrown what, d) :=
        pushFile_unclosed hold hopen
      unfold Unharmed
      rw [hwhat]
      exact .inl hold

/-- A push that survives has left a mapfile. -/
theorem Unharmed.content (h : Unharmed sys m e d text) :
    ∃ c, (pushFile sys m e d).2 m.canonical = some c := by
  unfold Unharmed at h
  split at h
  · rename_i heq
    obtain ⟨new, _, hc⟩ := h
    rw [heq]
    exact ⟨_, hc⟩
  · rename_i heq
    rw [heq]
    rcases h with hc | ⟨new, _, hc⟩
    · exact ⟨_, hc⟩
    · exact ⟨_, hc⟩
  · exact h.elim

-- ======================================================== the one mapfile

/-- Where the work file gets the whole text, and the mapfile has neither of
the other two names, a push does to the mapfile what `pushEntries` says. -/
theorem pushFile_refines (hold : d m.canonical = some text)
    (hs : m.canonical ≠ m.saveFile) (hw : m.canonical ≠ m.workingFile)
    (hfull : ∀ new, Updated e (getlines text) new → Complete sys m d new) :
    match pushEntries sys.toRuntime (String.ofList m.canonical) e (some text) with
    | .written t => ∃ d', pushFile sys m e d = (.returned, d')
        ∧ d' m.canonical = some t
    | .thrown _ left => ∃ what d', pushFile sys m e d = (.thrown what, d')
        ∧ d' m.canonical = left
    | .undefined => pushFile sys m e d = (.undefined, d) := by
  unfold pushEntries
  rcases updated_or_unclosed e (getlines text) with ⟨new, hnew⟩ | hopen
  · by_cases hroom : HasRoom sys.toRuntime e (getlines text)
    · have hwork := complete_iff.mp (hfull new hnew)
      rw [pushFile_updated hold hnew hroom]
      simp only [hnew.replaceLines.1 hroom]
      rcases exchange_cases sys (write_old hold hw (unlines new) sys.write) with
        ⟨hb, what, heq⟩ | ⟨_, hsave, _⟩ | ⟨hb, _, hwhy, what, d', heq, hgone⟩
        | ⟨hb, hr, _, w, d', hw', heq, hcontent⟩
      · obtain ⟨b, hb⟩ := Option.ne_none_iff_exists'.mp hb
        rw [hb]
        exact ⟨what, _, heq, write_old hold hw _ _⟩
      · exact absurd hsave hs
      · rcases hwhy with hwhy | hwhy | hwhy
        · exact absurd hwhy hw
        · obtain ⟨r, hr⟩ := Option.ne_none_iff_exists'.mp hwhy
          rw [hb, hr]
          exact ⟨what, d', heq, hgone⟩
        · rw [hwork] at hwhy
          cases hwhy
      · rw [hb, hr]
        rw [hwork] at hw'
        exact ⟨d', heq, hcontent.trans hw'.symm⟩
    · simp only [hnew.replaceLines.2 hroom]
      exact pushFile_moved hold hnew hroom
  · obtain ⟨what, hwhat⟩ : ∃ what, pushFile sys m e d = (.thrown what, d) :=
      pushFile_unclosed hold hopen
    obtain ⟨pre, rest, heq, hpre, hrest⟩ := hopen
    obtain ⟨why, hwhy⟩ : ∃ why, replaceLines (String.ofList m.canonical)
        (sys.capacity (getlines text).length) e (pre ++ beginMarker :: rest)
        = .error why := replaceLines_open hpre hrest e
    rw [← heq] at hwhy
    simp only [hwhy]
    exact ⟨what, d, hwhat, hold⟩

-- ============================================================ the message

/-- The entries that a message has for the command; its map may not be an
array. -/
inductive Brings (message : Json) : Option (List Entry) → Prop
  | nothing {v : Json} : message.get "map" = .ok v →
      (∀ items, v ≠ .arr items) → Brings message none
  | entries {items : List Json} {pairs : List Entry} :
      message.get "map" = .ok (.arr items) →
      readMap items .empty = .ok ((.empty : Entries).emplaceAll pairs) →
      Brings message (some pairs)

/-- Two ends of the command: they have one code, and leave one mapfile. -/
inductive SameEnd (m : Mapfile) :
    Option (Json × Option Chars) → Option (Nat × String) × Files → Prop
  | undefined {d : Files} : SameEnd m none (none, d)
  | answered {code : Nat} {error error' : String} {d : Files} :
      SameEnd m (some (.object (jsonResponse code error), d m.canonical))
        (some (code, error'), d)

/-- Of a message the command makes in the directory what it makes of the
mapfile alone. -/
theorem handlePush_message (hold : d m.canonical = some text)
    (hs : m.canonical ≠ m.saveFile) (hw : m.canonical ≠ m.workingFile)
    {message : Json} {newmap : Option (List Entry)}
    (hmap : Brings message newmap)
    (hfull : ∀ pairs ∈ newmap, ∀ new,
      Updated ((.empty : Entries).emplaceAll pairs) (getlines text) new →
      Complete sys m d new) :
    SameEnd m
      (BigDataExpress.handlePushGridmapEntries sys.toRuntime
        (String.ofList m.canonical) (d m.canonical) message)
      (handlePushGridmapEntries sys m newmap d) := by
  unfold BigDataExpress.handlePushGridmapEntries handlePushGridmapEntries
  cases hmap with
  | @nothing v hget hno =>
      have hthrown : gridmapOf message
          = .error "params do not contain a map array" := by
        unfold gridmapOf
        rw [hget]
        cases v with
        | arr items => exact absurd rfl (hno items)
        | _ => rfl
      rw [hthrown]
      exact .answered
  | @entries items pairs hget hread =>
      have hgridmap : gridmapOf message
          = .ok ((.empty : Entries).emplaceAll pairs) := by
        unfold gridmapOf
        rw [hget]
        exact hread
      have hrefines := pushFile_refines hold hs hw (hfull pairs rfl)
      rw [hgridmap, hold]
      cases hp : pushEntries sys.toRuntime (String.ofList m.canonical)
          ((.empty : Entries).emplaceAll pairs) (some text) with
      | written t =>
          rw [hp] at hrefines
          obtain ⟨d', hd', hleft⟩ := hrefines
          simp only [hp, hd', ← hleft]
          exact .answered
      | thrown what left =>
          rw [hp] at hrefines
          obtain ⟨what', d', hd', hleft⟩ := hrefines
          simp only [hp, hd', ← hleft]
          exact .answered
      | undefined =>
          rw [hp] at hrefines
          simp only [hp, hrefines]
          exact .undefined

end Outcome

-- ========================================================== two failures

/-- The names of the three files. -/
def gridMapfile : Mapfile where
  name := "/etc/grid-security/grid-mapfile".toList
  canonical := "/etc/grid-security/grid-mapfile".toList

/-- One file, with an empty section. -/
def oneFile : Files := fun n =>
  if n = gridMapfile.canonical then some emptySection else none

/-- A disk that takes 1000 characters, and a vector without more room than
it needs. -/
def lenient : System where
  toRuntime := tight
  write := .stored 1000

/-- The same, if the second renaming fails. -/
def unlucky : System where
  toRuntime := { tight with replace := some "Input/output error" }
  write := .stored 1000

/-- Two entries. -/
def twoEntries : Entries := testEntries.emplace ("/zest/".toList, "user".toList)

/-- A push of the sample entries. -/
theorem push_preserves_one :
    Preserved lenient gridMapfile testEntries oneFile emptySection
      ↔ Lossless lenient gridMapfile testEntries oneFile emptySection :=
  push_preserves_iff lenient gridMapfile testEntries oneFile emptySection
    (if_pos rfl) fun p hp => (testEntries_wellFormed p hp).newline

/-- Two entries do not fit a file of two lines. -/
theorem push_loses :
    ¬ ∀ (sys : System) (m : Mapfile) (e : Entries) (d : Files) (text : Chars),
      d m.canonical = some text → (∀ p ∈ e.entries, '\n' ∉ p.1 ++ p.2) →
      Preserved sys m e d text := by
  intro h
  have hpreserved := h lenient gridMapfile twoEntries oneFile emptySection
    (if_pos rfl) (by decide +kernel)
  apply hpreserved.defined
  decide +kernel

/-- And one that is out of luck. -/
theorem push_safe_one :
    Unharmed unlucky gridMapfile testEntries oneFile emptySection
      ↔ Survivable unlucky gridMapfile testEntries oneFile emptySection :=
  push_safe_iff unlucky gridMapfile testEntries oneFile emptySection
    (if_pos rfl)

/-- The second renaming fails, and there is no mapfile. -/
theorem push_harms :
    ¬ ∀ (sys : System) (m : Mapfile) (e : Entries) (d : Files) (text : Chars),
      d m.canonical = some text → Unharmed sys m e d text := by
  intro h
  obtain ⟨c, hc⟩ := (h unlucky gridMapfile testEntries oneFile emptySection
    (if_pos rfl)).content
  have hgone : (pushFile unlucky gridMapfile testEntries oneFile).2
      gridMapfile.canonical = none := by decide +kernel
  rw [hgone] at hc
  cases hc

end GridMapfile

end BigDataExpress

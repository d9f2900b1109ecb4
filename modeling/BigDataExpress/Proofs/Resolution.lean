/-
What path resolution leads to.

A name that resolves leads to a place that is reached from the root by
entries that are not links (`resolve_reach`), and such a place is what its
spelling resolves to (`place_spell`). From there on entries that are not
links are followed one by one, whatever the name before them was
(`resolve_append`), so the names a directory walk makes stand for the
objects it finds.
-/
import BigDataExpress.Agent.Requests
import BigDataExpress.Proofs.Divide

namespace BigDataExpress

-- =============================================================== objects

/-- What is found under a name has it. -/
theorem Tree.find_chars {c : PathName} {t : Tree} {n : Name} {o : Object}
    (h : t.find c = some (n, o)) : n.chars = c := by
  induction t with
  | nil => cases h
  | entry name owner kind sub rest _ ih =>
      unfold Tree.find at h
      by_cases hc : name.chars = c
      · rw [if_pos hc] at h
        injection h with h
        injection h with hn
        exact hn ▸ hc
      · rw [if_neg hc] at h
        exact ih h

/-- What is found is among the names. -/
theorem Tree.find_mem {c : PathName} {t : Tree} {n : Name} {o : Object}
    (h : t.find c = some (n, o)) : n ∈ t.names := by
  induction t with
  | nil => cases h
  | entry name owner kind sub rest _ ih =>
      unfold Tree.find at h
      by_cases hc : name.chars = c
      · rw [if_pos hc] at h
        injection h with h
        injection h with hn
        exact hn ▸ List.mem_cons_self ..
      · rw [if_neg hc] at h
        exact List.mem_cons_of_mem name (ih h)

/-- Names stay distinct further down. -/
theorem Tree.find_distinct {c : PathName} {t : Tree} {n : Name} {o : Object}
    (ht : t.Distinct) (h : t.find c = some (n, o)) : o.sub.Distinct := by
  induction t with
  | nil => cases h
  | entry name owner kind sub rest _ ih =>
      unfold Tree.find at h
      by_cases hc : name.chars = c
      · rw [if_pos hc] at h
        injection h with h
        injection h with _ ho
        exact ho ▸ ht.2.1
      · rw [if_neg hc] at h
        exact ih ht.2.2 h

namespace Object

/-- Down one name, and then the others. -/
theorem at?_cons (o : Object) (n : Name) (l : Place) :
    o.at? (n :: l) = (o.child n.chars).bind fun q => q.2.at? l := by
  rw [at?]
  cases o.child n.chars with
  | none => rfl
  | some q => rfl

/-- Down a place, and then down another. -/
theorem at?_append (o : Object) (l l' : Place) :
    o.at? (l ++ l') = (o.at? l).bind fun o' => o'.at? l' := by
  induction l generalizing o with
  | nil => rfl
  | cons n l ih =>
      rw [List.cons_append, at?_cons, at?_cons]
      cases o.child n.chars with
      | none => rfl
      | some q => exact ih q.2

/-- A child has the name it was asked for by. -/
theorem child_chars {o o' : Object} {c : PathName} {n : Name}
    (h : o.child c = some (n, o')) : n.chars = c := by
  unfold child at h
  split at h
  · exact Tree.find_chars h
  · cases h

/-- The entries of every directory have different names. -/
theorem at?_distinct {o o' : Object} {l : Place} (ho : o.sub.Distinct)
    (h : o.at? l = some o') : o'.sub.Distinct := by
  induction l generalizing o with
  | nil =>
      injection h with h
      exact h ▸ ho
  | cons n l ih =>
      rw [at?_cons] at h
      cases hc : o.child n.chars with
      | none =>
          rw [hc] at h
          cases h
      | some q =>
          rw [hc] at h
          refine ih ?_ h
          unfold child at hc
          split at hc
          · exact Tree.find_distinct ho hc
          · cases hc

/-- Only directories have children. -/
theorem isDir_of_child {o : Object} {c : PathName} {q : Name × Object}
    (h : o.child c = some q) : o.isDir = true := by
  unfold child at h
  split at h
  · assumption
  · cases h

/-- What is reached down a place is there. -/
theorem Reach.at? {o o' : Object} {l : Place} (h : Reach o l o') :
    o.at? l = some o' := by
  induction h with
  | refl o => rfl
  | step hc _ _ ih =>
      rw [at?_cons, hc]
      exact ih

/-- Reaching goes on. -/
theorem Reach.append {o o' o'' : Object} {l l' : Place} (h : Reach o l o')
    (h' : Reach o' l' o'') : Reach o (l ++ l') o'' := by
  induction h with
  | refl o => exact h'
  | step hc hl _ ih => exact .step hc hl (ih h')

/-- What is reached was reached by way of everything in between. -/
theorem Reach.split {o o'' : Object} {l l' : Place}
    (h : Reach o (l ++ l') o'') : ∃ o', Reach o l o' ∧ Reach o' l' o'' := by
  induction l generalizing o with
  | nil => exact ⟨o, .refl o, h⟩
  | cons n l ih =>
      cases h with
      | step hc hl h =>
          obtain ⟨o', h₁, h₂⟩ := ih h
          exact ⟨o', .step hc hl h₁, h₂⟩

/-- One entry further. -/
theorem Reach.snoc {o o' o'' : Object} {l : Place} {n : Name}
    (h : Reach o l o') (hc : o'.child n.chars = some (n, o''))
    (hl : o''.isLink = false) : Reach o (l ++ [n]) o'' :=
  h.append (.step hc hl (.refl o''))

end Object

-- ============================================================ resolution

namespace Disk

variable {d : Disk} {last : Bool}

/-- A place that is reached from the root by entries that are not links. -/
def Real (d : Disk) (p : Place) : Prop := ∃ o, d.root.Reach p o

/-- The root is real. -/
theorem Real.root (d : Disk) : d.Real [] := ⟨_, .refl _⟩

/-- A real place has an object, reached down directories. -/
theorem Real.object {p : Place} (h : d.Real p) :
    ∃ o, d.object p = some o ∧ d.root.Reach p o := by
  obtain ⟨o, ho⟩ := h
  exact ⟨o, ho.at?, ho⟩

/-- What is above a real place is real. -/
theorem Real.dropLast {p : Place} (h : d.Real p) : d.Real p.dropLast := by
  obtain rfl | ⟨l, n, rfl⟩ := List.eq_nil_or_concat' p
  · exact h
  · obtain ⟨o, ho⟩ := h
    obtain ⟨o', ho', -⟩ := ho.split
    rw [List.dropLast_concat]
    exact ⟨o', ho'⟩

/-- Where one component leads to: a place to go on from, or a link, with
the place its target is taken from and the target's components. -/
inductive Turn
  | «at» (p : Place)
  | link (p start : Place) (target : List PathName)

/-- One component of a name: where it leads, or the target if it is a link. -/
def turn (d : Disk) (cur : Place) (c : PathName) : Except Errno Turn :=
  match d.object cur with
  | none => .error .enoent
  | some o =>
      if o.isDir = false then .error .enotdir
      else if c = ['.'] then .ok (.at cur)
      else if c = ['.', '.'] then .ok (.at cur.dropLast)
      else
        match o.child c with
        | none => .error .enoent
        | some (n, o') =>
            match o'.kind with
            | .link target =>
                .ok (.link (cur ++ [n])
                  (if target.head? = some '/' then [] else cur)
                  (components target))
            | _ => .ok (.at (cur ++ [n]))

/-- `follow`, by turns. -/
theorem follow_cons (d : Disk) (last : Bool)
    (next : Place → List PathName → Except Errno Place) (cur : Place)
    (c : PathName) (cs : List PathName) :
    d.follow last next cur (c :: cs) =
      match d.turn cur c with
      | .error e => .error e
      | .ok (.at p) => d.follow last next p cs
      | .ok (.link p start target) =>
          if cs = [] ∧ last = false then .ok p
          else next start (target ++ cs) := by
  rw [follow]
  unfold turn
  cases d.object cur with
  | none => rfl
  | some o =>
      simp only
      split
      · rfl
      · split
        · rfl
        · split
          · rfl
          · cases o.child c with
            | none => rfl
            | some q =>
                simp only
                cases q.2.kind with
                | link | file | dir | other => rfl

/-- The object one name further down. -/
theorem object_snoc {cur : Place} {o o' : Object} {c : PathName} {n : Name}
    (hcur : d.object cur = some o) (hc : o.child c = some (n, o')) :
    d.object (cur ++ [n]) = some o' := by
  have hn := Object.child_chars hc
  subst hn
  unfold object at hcur ⊢
  rw [Object.at?_append, hcur]
  show o.at? [n] = some o'
  rw [Object.at?_cons, hc]
  rfl

/-- What a turn that does not fail can be. -/
theorem turn_cases {cur : Place} {c : PathName} {t : Turn}
    (h : d.turn cur c = .ok t) :
    ∃ o, d.object cur = some o ∧ o.isDir = true
      ∧ ((c = ['.'] ∧ t = .at cur) ∨ (c = ['.', '.'] ∧ t = .at cur.dropLast)
        ∨ ∃ n o', o.child c = some (n, o')
          ∧ ((o'.isLink = false ∧ t = .at (cur ++ [n]))
            ∨ ∃ target, o'.isLink = true ∧ t = .link (cur ++ [n])
                (if target.head? = some '/' then [] else cur)
                (components target))) := by
  unfold turn at h
  cases ho : d.object cur with
  | none =>
      rw [ho] at h
      cases h
  | some o =>
      simp only [ho] at h
      by_cases hdir : o.isDir = false
      · rw [if_pos hdir] at h
        cases h
      rw [if_neg hdir] at h
      refine ⟨o, rfl, by simpa using hdir, ?_⟩
      by_cases hdot : c = ['.']
      · rw [if_pos hdot] at h
        injection h with h
        exact .inl ⟨hdot, h.symm⟩
      rw [if_neg hdot] at h
      by_cases hup : c = ['.', '.']
      · rw [if_pos hup] at h
        injection h with h
        exact .inr (.inl ⟨hup, h.symm⟩)
      rw [if_neg hup] at h
      cases hc : o.child c with
      | none =>
          rw [hc] at h
          cases h
      | some q =>
          obtain ⟨n, o'⟩ := q
          refine .inr (.inr ⟨n, o', rfl, ?_⟩)
          rw [hc] at h
          cases hk : o'.kind with
          | link target =>
              simp only [hk] at h
              injection h with h
              refine .inr ⟨target, ?_, h.symm⟩
              unfold Object.isLink
              rw [hk]
          | file | dir | other =>
              simp only [hk] at h
              injection h with h
              refine .inl ⟨?_, h.symm⟩
              unfold Object.isLink
              rw [hk]

/-- The place to go on from after a turn. -/
def Turn.place : Turn → Place
  | .at p => p
  | .link _ start _ => start

/-- A component leads from real places to real places. -/
theorem turn_real {cur : Place} {c : PathName} {t : Turn}
    (h : d.turn cur c = .ok t) (hcur : d.Real cur) : d.Real t.place := by
  obtain ⟨o, ho, -, hcases⟩ := turn_cases h
  obtain ⟨-, rfl⟩ | ⟨-, rfl⟩ | ⟨n, o', hc, hcases⟩ := hcases
  · exact hcur
  · exact hcur.dropLast
  · obtain ⟨hlink, rfl⟩ | ⟨target, -, rfl⟩ := hcases
    · obtain ⟨oc, hoc, hreach⟩ := hcur.object
      rw [ho] at hoc
      injection hoc with hoc
      subst hoc
      have hn := Object.child_chars hc
      subst hn
      exact ⟨o', hreach.snoc hc hlink⟩
    · show d.Real (if target.head? = some '/' then [] else cur)
      split
      · exact Real.root d
      · exact hcur

/-- A link that is met is one. -/
theorem turn_link {cur p start : Place} {c : PathName}
    {target : List PathName} (h : d.turn cur c = .ok (.link p start target)) :
    ∃ o, d.object p = some o ∧ o.isLink = true := by
  obtain ⟨o, ho, -, hcases⟩ := turn_cases h
  obtain ⟨-, h⟩ | ⟨-, h⟩ | ⟨n, o', hc, hcases⟩ := hcases
  · cases h
  · cases h
  · obtain ⟨-, h⟩ | ⟨_, hlink, h⟩ := hcases
    · cases h
    · injection h with hp
      exact ⟨o', hp ▸ object_snoc ho hc, hlink⟩

/-- An entry that is no link leads to itself. -/
theorem turn_entry {cur : Place} {o o' : Object} {n : Name}
    (hcur : d.object cur = some o) (hc : o.child n.chars = some (n, o'))
    (hlink : o'.isLink = false) :
    d.turn cur n.chars = .ok (.at (cur ++ [n])) := by
  have hdir : ¬ o.isDir = false := by simp [Object.isDir_of_child hc]
  unfold turn
  simp only [hcur, hc]
  rw [if_neg hdir, if_neg n.not_dot.1, if_neg n.not_dot.2]
  cases hk : o'.kind with
  | link target =>
      unfold Object.isLink at hlink
      rw [hk] at hlink
      cases hlink
  | file | dir | other => rfl

/-- The results of `follow` are real, if those of `next` are. -/
theorem follow_real {next : Place → List PathName → Except Errno Place}
    (hnext : ∀ cur cs p, d.Real cur → next cur cs = .ok p → d.Real p)
    (cs : List PathName) (cur p : Place) (hcur : d.Real cur)
    (h : d.follow true next cur cs = .ok p) : d.Real p := by
  induction cs generalizing cur with
  | nil =>
      injection h with h
      exact h ▸ hcur
  | cons c cs ih =>
      rw [follow_cons] at h
      cases hturn : d.turn cur c with
      | error e =>
          rw [hturn] at h
          cases h
      | ok t =>
          have hreal := turn_real hturn hcur
          rw [hturn] at h
          cases t with
          | «at» q => exact ih q hreal h
          | link q start target =>
              simp only at h
              rw [if_neg (by simp)] at h
              exact hnext _ _ _ hreal h

/-- Resolution leads to real places. -/
theorem resolve_real (links : Nat) (cs : List PathName) (cur p : Place)
    (hcur : d.Real cur) (h : d.resolve true links cur cs = .ok p) :
    d.Real p := by
  induction links generalizing cs cur p with
  | zero =>
      refine follow_real ?_ cs cur p hcur h
      intro _ _ _ _ hnext
      cases hnext
  | succ links ih =>
      exact follow_real (fun cur cs p hcur hnext => ih cs cur p hcur hnext)
        cs cur p hcur h

-- ----------------------------------------------- names behind a name

/-- Entries that are not links are followed one by one. -/
theorem follow_entries (next : Place → List PathName → Except Errno Place)
    {o o' : Object} {ns : Place} (h : o.Reach ns o') (cur : Place)
    (hcur : d.object cur = some o) :
    d.follow last next cur (ns.map Name.chars) = .ok (cur ++ ns) := by
  induction h generalizing cur with
  | refl o => exact congrArg Except.ok (List.append_nil cur).symm
  | @step o o₁ o₂ n l hc hl _ ih =>
      rw [List.map_cons, follow_cons, turn_entry hcur hc hl]
      simp only
      rw [ih (cur ++ [n]) (object_snoc hcur hc), List.append_assoc]
      rfl

/-- They are followed behind a name, wherever it led to. -/
theorem follow_append {next : Place → List PathName → Except Errno Place}
    {ns : Place}
    (hnext : ∀ cur cs p o o', next cur cs = .ok p → d.object p = some o →
      o.Reach ns o' → next cur (cs ++ ns.map Name.chars) = .ok (p ++ ns))
    (cs : List PathName) (cur p : Place) {o o' : Object}
    (h : d.follow true next cur cs = .ok p) (ho : d.object p = some o)
    (hreach : o.Reach ns o') :
    d.follow true next cur (cs ++ ns.map Name.chars) = .ok (p ++ ns) := by
  induction cs generalizing cur with
  | nil =>
      injection h with h
      subst h
      exact follow_entries next hreach cur ho
  | cons c cs ih =>
      rw [List.cons_append, follow_cons]
      rw [follow_cons] at h
      cases hturn : d.turn cur c with
      | error e =>
          rw [hturn] at h
          cases h
      | ok t =>
          rw [hturn] at h
          cases t with
          | «at» q => exact ih q h
          | link q start target =>
              simp only at h ⊢
              rw [if_neg (by simp)] at h ⊢
              rw [← List.append_assoc]
              exact hnext _ _ _ _ _ h ho hreach

/-- After a resolution further entries that are no links are just appended. -/
theorem resolve_append {ns : Place} (links : Nat) (cs : List PathName)
    (cur p : Place) {o o' : Object}
    (h : d.resolve true links cur cs = .ok p) (ho : d.object p = some o)
    (hreach : o.Reach ns o') :
    d.resolve true links cur (cs ++ ns.map Name.chars) = .ok (p ++ ns) := by
  induction links generalizing cs cur p o o' with
  | zero =>
      refine follow_append ?_ cs cur p h ho hreach
      intro _ _ _ _ _ hnext
      cases hnext
  | succ links ih =>
      exact follow_append (fun cur cs p o o' hnext ho hr =>
        ih cs cur p hnext ho hr) cs cur p h ho hreach

/-- Where the name led to something that is not a link, it leads there as
well if a last link is to be followed. -/
theorem follow_last {next next' : Place → List PathName → Except Errno Place}
    (hnext : ∀ cur cs p o, next cur cs = .ok p → d.object p = some o →
      o.isLink = false → next' cur cs = .ok p)
    (cs : List PathName) (cur p : Place) {o : Object}
    (h : d.follow false next cur cs = .ok p) (ho : d.object p = some o)
    (hlink : o.isLink = false) : d.follow true next' cur cs = .ok p := by
  induction cs generalizing cur with
  | nil => exact h
  | cons c cs ih =>
      rw [follow_cons] at h ⊢
      cases hturn : d.turn cur c with
      | error e =>
          rw [hturn] at h
          cases h
      | ok t =>
          rw [hturn] at h
          cases t with
          | «at» q => exact ih q h
          | link q start target =>
              simp only at h ⊢
              rw [if_neg (by simp)]
              by_cases hcs : cs = []
              · -- the result would be the link
                rw [if_pos ⟨hcs, trivial⟩] at h
                injection h with h
                obtain ⟨o', ho', hlink'⟩ := turn_link hturn
                rw [h, ho] at ho'
                injection ho' with ho'
                rw [ho', hlink'] at hlink
                cases hlink
              · rw [if_neg fun hand => hcs hand.1] at h
                exact hnext _ _ _ _ h ho hlink

/-- A last component that is no link is where it leads if followed. -/
theorem resolve_last (links : Nat) (cs : List PathName) (cur p : Place)
    {o : Object} (h : d.resolve false links cur cs = .ok p)
    (ho : d.object p = some o) (hlink : o.isLink = false) :
    d.resolve true links cur cs = .ok p := by
  induction links generalizing cs cur p o with
  | zero =>
      refine follow_last ?_ cs cur p h ho hlink
      intro _ _ _ _ hnext
      cases hnext
  | succ links ih =>
      exact follow_last (fun cur cs p o hnext ho hlink =>
        ih cs cur p hnext ho hlink) cs cur p h ho hlink

/-- A real place is what its components lead to. -/
theorem resolve_entries {p : Place} (h : d.Real p) (links : Nat) :
    d.resolve last links [] (p.map Name.chars) = .ok p := by
  obtain ⟨o, ho⟩ := h
  cases links with
  | zero => exact follow_entries _ ho [] rfl
  | succ links => exact follow_entries _ ho [] rfl

-- ------------------------------------------------------------ places

/-- A name that stands for a place, taken apart. -/
theorem place_ok {s : PathName} {p : Place} (h : d.place last s = .ok p) :
    s ≠ [] ∧ ∃ follow, (last = true → follow = true)
      ∧ d.resolve follow 40 (d.start s) (components s) = .ok p := by
  unfold place at h
  by_cases hs : s = []
  · rw [if_pos hs] at h
    cases h
  rw [if_neg hs] at h
  refine ⟨hs, last || s.getLast? == some '/', fun hl => by rw [hl]; rfl, ?_⟩
  simp only at h
  cases hr : d.resolve (last || s.getLast? == some '/') 40 (d.start s)
      (components s) with
  | error e =>
      rw [hr] at h
      cases h
  | ok q =>
      rw [hr] at h
      simp only at h
      split at h
      · cases h
      · injection h with h
        rw [h]

/-- A name that does not end in a slash is resolved by its components. -/
theorem place_of_resolve {s : PathName} {p : Place} (hs : s ≠ [])
    (hslash : s.getLast? ≠ some '/')
    (h : d.resolve last 40 (d.start s) (components s) = .ok p) :
    d.place last s = .ok p := by
  have hfalse : (s.getLast? == some '/') = false := by simpa using hslash
  unfold place
  rw [if_neg hs]
  simp only [hfalse, Bool.or_false, h, Bool.false_and]
  rfl

/-- Resolution starts at a real place. -/
theorem start_real (d : Disk) (s : PathName) : d.Real (d.start s) := by
  unfold start
  split
  · exact Real.root d
  · exact d.cwd_reach

/-- What `realpath` returns is real. -/
theorem realpath_real {s : PathName} {p : Place}
    (h : d.realpath s = .ok p) : d.Real p := by
  obtain ⟨-, follow, hfollow, hres⟩ := place_ok h
  rw [hfollow rfl] at hres
  exact resolve_real 40 _ _ p (start_real d s) hres

/-- A spelled place does not end in a slash. -/
theorem spell_last {p : Place} (h : p ≠ []) : (spell p).getLast? ≠ some '/' := by
  obtain rfl | ⟨l, n, rfl⟩ := List.eq_nil_or_concat' p
  · exact absurd rfl h
  · have hspell : spell (l ++ [n])
        = (l.flatMap fun n => '/' :: n.chars) ++ '/' :: n.chars := by
      unfold spell
      cases l with
      | nil => simp
      | cons m l => simp
    rw [hspell]
    intro hlast
    have hne : ('/' :: n.chars) ≠ [] := List.cons_ne_nil _ _
    rw [List.getLast?_append_of_ne_nil _ hne,
      List.getLast?_cons_of_ne_nil n.ne_nil] at hlast
    exact n.no_slash (List.mem_of_getLast? hlast)

/-- A spelled place begins with a slash. -/
theorem spell_head (p : Place) : (spell p).head? = some '/' := by
  cases p with
  | nil => rfl
  | cons n l => rfl

/-- A real place is what its spelling stands for. -/
theorem place_spell {p : Place} (h : d.Real p) :
    d.place last (spell p) = .ok p := by
  have hstart : d.start (spell p) = [] := if_pos (spell_head p)
  have hres : ∀ last, d.resolve last 40 (d.start (spell p))
      (components (spell p)) = .ok p := by
    intro last
    rw [hstart, components_spell]
    exact resolve_entries h 40
  by_cases hp : p = []
  · subst hp
    unfold place
    rw [if_neg (by decide)]
    simp only [hres]
    have hroot : (d.object []).any Object.isDir = true := d.root_dir
    simp [hroot]
  · refine place_of_resolve ?_ (spell_last hp) (hres last)
    intro hnil
    have := spell_head p
    rw [hnil] at this
    cases this

/-- A name of something that is not a link leads there, links followed or
not. -/
theorem realpath_of_place {s : PathName} {p : Place} {o : Object}
    (h : d.place false s = .ok p) (ho : d.object p = some o)
    (hlink : o.isLink = false) : d.realpath s = .ok p := by
  unfold realpath
  unfold place at h ⊢
  by_cases hs : s = []
  · rw [if_pos hs] at h
    cases h
  rw [if_neg hs] at h ⊢
  cases hslash : s.getLast? == some '/' with
  | true =>
      rw [hslash] at h
      exact h
  | false =>
      simp only [hslash, Bool.or_false, Bool.false_and] at h ⊢
      cases hr : d.resolve false 40 (d.start s) (components s) with
      | error e =>
          rw [hr] at h
          cases h
      | ok q =>
          simp only [hr] at h
          injection h with h
          subst h
          rw [resolve_last 40 _ _ q hr ho hlink]
          rfl

/-- A name that goes on behind another one by entries that are not
links. -/
structure Extends (s : PathName) (ns : Place) (q : PathName) : Prop where
  ne_nil : q ≠ []
  head : q.head? = s.head?
  last : q.getLast? ≠ some '/'
  components : components q = components s ++ ns.map Name.chars

/-- A name that goes on by entries leads to them. -/
theorem Extends.realpath {s q : PathName} {ns p : Place} {o o' : Object}
    (h : Extends s ns q) (hs : d.realpath s = .ok p)
    (ho : d.object p = some o) (hreach : o.Reach ns o') :
    d.realpath q = .ok (p ++ ns) := by
  obtain ⟨-, follow, hfollow, hres⟩ := place_ok hs
  rw [hfollow rfl] at hres
  refine place_of_resolve h.ne_nil h.last ?_
  have hstart : d.start q = d.start s := by
    unfold start
    rw [h.head]
  rw [hstart, h.components]
  exact resolve_append 40 _ _ p hres ho hreach

end Disk

-- ============================================== the names a walk makes

/-- The name of an entry starts as the directory's does, and ends with no
slash. -/
theorem joinPaths_name {a : PathName} (ha : a ≠ []) (n : Name) :
    (joinPaths a n.chars).head? = a.head?
      ∧ (joinPaths a n.chars).getLast? ≠ some '/' := by
  have hb : trimBack (trimFront n.chars) = n.chars := by
    rw [trimFront_of_not_mem n.no_slash]
    exact trimBack_of_last fun hl => n.no_slash (List.mem_of_getLast? hl)
  have hslash : n.chars ≠ ['/'] := fun h =>
    n.no_slash (h ▸ List.mem_singleton_self _)
  have hlast : ∀ l : PathName, (l ++ n.chars).getLast? ≠ some '/' := by
    intro l hl
    rw [List.getLast?_append_of_ne_nil _ n.ne_nil] at hl
    exact n.no_slash (List.mem_of_getLast? hl)
  obtain ⟨k, hk⟩ := trimBack_spec a
  have hne : trimBack a ≠ [] := trimBack_ne_nil ha
  have hhead : (trimBack a).head? = a.head? := by
    conv_rhs => rw [hk]
    exact (List.head?_append_of_ne_nil _ hne).symm
  unfold joinPaths
  rw [if_neg ha, if_neg n.ne_nil]
  simp only [hb, if_neg hslash]
  split
  · refine ⟨?_, hlast _⟩
    rw [← hhead, List.head?_append_of_ne_nil _ hne]
  · refine ⟨?_, ?_⟩
    · rw [← hhead, List.head?_append_of_ne_nil _ hne]
    · exact List.append_cons (trimBack a) '/' n.chars ▸ hlast _

namespace Disk.Extends

/-- The name of an entry goes on by it. -/
theorem child {a : PathName} (ha : a ≠ []) (n : Name) :
    Extends a [n] (joinPaths a n.chars) where
  ne_nil := by
    intro hnil
    have hlast := (joinPaths_name ha n).1
    rw [hnil] at hlast
    cases a with
    | nil => exact ha rfl
    | cons c a => cases hlast
  head := (joinPaths_name ha n).1
  last := (joinPaths_name ha n).2
  components := by
    rw [components_joinPaths, components_name]
    rfl

/-- Names that go on, in a row. -/
theorem trans {s q r : PathName} {ns ms : Place} (h : Extends s ns q)
    (h' : Extends q ms r) : Extends s (ns ++ ms) r where
  ne_nil := h'.ne_nil
  head := h'.head.trans h.head
  last := h'.last
  components := by
    rw [h'.components, h.components, List.append_assoc, List.map_append]

end Disk.Extends

/-- How a walk from `q` found `p`, a file or a directory: by way of the
entries `ns`, the last of which is `o`. -/
structure Found (q p : Path) (ns : Place) (o : Object) : Prop where
  name : Disk.Extends q.name ns p.name
  real : p.real = q.real.map (· ++ ns)
  node : p.node = o.node

/-- What a walk meets in a directory. -/
theorem Found.child {q : Path} (hq : q.name ≠ []) (n : Name) (o : Object) :
    Found q (q.child n o.node) [n] o where
  name := Disk.Extends.child hq n
  real := rfl
  node := rfl

/-- And further down. -/
theorem Found.deeper {q p : Path} {n : Name} {node : Node} {ns : Place}
    {o : Object} (hq : q.name ≠ []) (h : Found (q.child n node) p ns o) :
    Found q p (n :: ns) o where
  name := (Disk.Extends.child hq n).trans h.name
  real := by
    rw [h.real]
    show (q.real.map _).map _ = _
    cases q.real with
    | error e => rfl
    | ok l =>
        show Except.ok ((l ++ [n]) ++ ns) = Except.ok (l ++ n :: ns)
        rw [List.append_assoc]
        rfl
  node := h.node

/-- An entry is not hidden by one before it. -/
theorem Tree.find_rest {c : PathName} {rest : Tree} {n name : Name}
    {o : Object} (owner : Owner) (kind : Kind) (sub : Tree)
    (hname : name ∉ rest.names) (h : rest.find c = some (n, o)) :
    (entry name owner kind sub rest).find c = some (n, o) := by
  have hne : name.chars ≠ c := by
    intro hc
    have hn : n = name := Name.ext ((find_chars h).trans hc.symm)
    exact hname (hn ▸ find_mem h)
  unfold find
  rw [if_neg hne, h]

/-- The first entry is found under its name. -/
theorem Tree.find_first (name : Name) (owner : Owner) (kind : Kind)
    (sub rest : Tree) :
    (entry name owner kind sub rest).find name.chars
      = some (name, ⟨owner, kind, sub⟩) := by
  unfold find
  rw [if_pos rfl]

/-- A directory that can be opened. -/
def Object.Opens (o : Object) : Prop := ∃ full, o.kind = .dir none full

/-- From an object to one below it, by directories that can be opened and
entries that are not links. -/
inductive Object.Leads : Object → Place → Object → Prop
  | refl (o : Object) : Leads o [] o
  | step {o o' o'' : Object} {n : Name} {l : Place} :
      o.Opens → o.child n.chars = some (n, o') → o'.isLink = false →
      Leads o' l o'' → Leads o (n :: l) o''

/-- The path was found by way of one of the entries. -/
def Tree.Finds (t : Tree) (q p : Path) : Prop :=
  ∃ n ns o₁ o, t.find n.chars = some (n, o₁) ∧ o₁.isLink = false
    ∧ o₁.Leads ns o ∧ Found q p (n :: ns) o

/-- By induction on the tree: what a walk finds is the entry itself, below
it, or among the entries behind it. -/
theorem Tree.walk_finds {t : Tree} {q p : Path} (ht : t.Distinct)
    (hq : q.name ≠ []) (hp : p ∈ walkEntries q t.listing)
    (hkind : p.isRegularFile = true ∨ p.isDirectory = true) :
    t.Finds q p := by
  induction t generalizing q with
  | nil => cases hp
  | entry name owner kind sub rest ihsub ihrest =>
      obtain ⟨hname, hsub, hrest⟩ := ht
      -- behind the entry
      have behind : p ∈ walkEntries q rest.listing →
          (entry name owner kind sub rest).Finds q p := by
        intro hp
        obtain ⟨n, ns, o₁, o, hfind, hfound⟩ := ihrest hrest hq hp
        exact ⟨n, ns, o₁, o, find_rest owner kind sub hname hfind, hfound⟩
      -- the entry itself
      have itself : ∀ node, Object.node ⟨owner, kind, sub⟩ = node →
          Object.isLink ⟨owner, kind, sub⟩ = false →
          p = q.child name node →
          (entry name owner kind sub rest).Finds q p := by
        intro node hnode hlink hp
        subst hnode
        subst hp
        exact ⟨name, [], _, _, find_first name owner kind sub rest, hlink,
          .refl _, Found.child hq name _⟩
      cases kind with
      | file size content =>
          obtain hp | hp := List.mem_cons.mp hp
          · exact itself _ rfl rfl hp
          · exact behind hp
      | dir shut full =>
          cases shut with
          | some why =>
              obtain hp | hp := List.mem_cons.mp hp
              · exact itself _ rfl rfl hp
              · exact behind hp
          | none =>
              obtain hp | hp := List.mem_append.mp hp
              · obtain hp | hp := List.mem_cons.mp hp
                · exact itself _ rfl rfl hp
                · obtain ⟨n, ns, o₁, o, hfind, hlink, hreach, hfound⟩ :=
                    ihsub hsub (Disk.Extends.child hq name).ne_nil hp
                  exact ⟨name, n :: ns, _, o, find_first .., rfl,
                    .step ⟨full, rfl⟩ hfind hlink hreach, hfound.deeper hq⟩
              · exact behind hp
      | link target =>
          obtain hp | hp := List.mem_cons.mp hp
          · subst hp
            cases hkind with
            | inl h => cases h
            | inr h => cases h
          · exact behind hp
      | other size content =>
          obtain hp | hp := List.mem_cons.mp hp
          · exact itself _ rfl rfl hp
          · exact behind hp

/-- What a walk meets, of files and directories, is reached by entries that
are no links. -/
theorem Object.walk_found {o : Object} {q p : Path} (ho : o.sub.Distinct)
    (hq : q.name ≠ []) (hnode : q.node = o.node) (hp : p ∈ BigDataExpress.walk q)
    (hkind : p.isRegularFile = true ∨ p.isDirectory = true) :
    ∃ ns o', o.Leads ns o' ∧ Found q p ns o' := by
  unfold BigDataExpress.walk at hp
  rw [hnode] at hp
  cases hk : o.kind with
  | dir shut full =>
      cases shut with
      | none =>
          simp only [node, hk] at hp
          obtain ⟨n, ns, o₁, o', hfind, hlink, hreach, hfound⟩ :=
            Tree.walk_finds ho hq hp hkind
          refine ⟨n :: ns, o', .step ⟨full, hk⟩ ?_ hlink hreach, hfound⟩
          unfold child isDir
          rw [hk]
          exact hfind
      | some why =>
          simp only [node, hk] at hp
          cases hp
  | file | link | other =>
      simp only [node, hk] at hp
      cases hp

end BigDataExpress

/-
Is the parsing of a submitted job total?

A submission has fields of the types they are read as, with any strings
and any numbers in them. Its destination is parsed or refused whatever it
is (`parseRawJobDst_outcome`). The parsing of its sources fails on two
kinds of them: a deadline whose product with 1000, in 64 bits, is less
than 1000 leaves nothing to divide by, and a dataset file whose
destination has no fourth field, or an empty one, has no directory
(`parsing_total_iff`). A deadline that is not positive is divided by like
any other.

The answers of the sites are any that can be read (`Mail.Readable`).
-/
import BigDataExpress.Proofs.Dataset

namespace BigDataExpress

open Stateful

-- ========================================================= submissions

/-- The value is an object or null. -/
def Json.Opens (v : Json) : Prop := ∃ fields, v.members = .ok fields

/-- A site of the store, whose portal has an address. -/
def Premises.Reaches (pr : Premises) (site : String) : Prop :=
  ∃ info url, pr.getSiteInfo site = .ok info ∧ commandUrl info = .ok url

/-- The sources of a rawjob as they are submitted: the fields that are
read have their types, or are not there. -/
structure SourceSubmission (pr : Premises) where
  job : Json
  srcsite : String
  srcfile : String
  files : List DatasetFile
  id : ∃ o : ObjectId, job.IsOf o
  user : ∃ user, oidOf job "user" = .ok user
  has_srcsite : oidOf job "srcsite" = .ok srcsite
  reaches : pr.Reaches srcsite
  has_srcfile : textOf job "srcfile" = .ok srcfile
  has_files : ∃ v, job.get "files" = .ok v
    ∧ v.items = files.map DatasetFile.toJson
  has_path : ∃ path, dstPathOf job = .ok path

/-- A rawjob as it is submitted, with its destination. -/
structure Submission (pr : Premises) extends SourceSubmission pr where
  dstsite : String
  dstfile : String
  has_dstsite : oidOf job "dstsite" = .ok dstsite
  dst_reaches : pr.Reaches dstsite
  has_dstfile : textOf job "dstfile" = .ok dstfile
  dst : ∃ dst site, job.get "dst" = .ok dst ∧ dst.Opens
    ∧ dst.get "site" = .ok site ∧ site.Opens

-- ======================================================== destinations

/-- What opens has members, or null for them. -/
theorem Json.Opens.get {v : Json} (h : v.Opens) (key : String) :
    ∃ x, v.get key = .ok x := by
  obtain ⟨fields, h⟩ := h
  exact ⟨_, bind_eq_ok.2 ⟨fields, h, rfl⟩⟩

/-- A member of it may be set. -/
theorem Json.Opens.set {v : Json} (h : v.Opens) (key : String) (x : Json) :
    ∃ fields, v.set key x = .ok (.obj fields) := by
  obtain ⟨fields, h⟩ := h
  exact ⟨_, bind_eq_ok.2 ⟨fields, h, rfl⟩⟩

/-- A job with an object for its destination. -/
def HasDst (job : Json) : Prop := ∃ fields, job.Has "dst" (.obj fields)

/-- A member of the destination may be set. -/
theorem HasDst.setIn {job : Json} (h : HasDst job) (key : String)
    (x : Json) : ∃ w, job.setIn ["dst", key] x = .ok w ∧ HasDst w := by
  obtain ⟨df, jf, rfl, hdst⟩ := h
  refine ⟨.obj (Json.assign "dst" (.obj (Json.assign key x df)) jf), ?_,
    Json.assign key x df, _, rfl, ?_⟩
  · unfold Json.setIn
    rw [Json.get_obj, hdst]
    rfl
  · rw [Json.lookup_assign, if_pos rfl]

/-- The destination of a submission can be put into it. -/
theorem withDestination_total {pr : Premises} (sub : Submission pr)
    {answer : Json} (ha : Readable answer) (site dtn storage path : String) :
    ∃ job, withDestination sub.job site dtn storage path answer
      = .ok job := by
  obtain ⟨o, jf, hjob, _⟩ := sub.id
  obtain ⟨dst, st, hdst, hopen, hst, hst'⟩ := sub.dst
  obtain ⟨node, hnode, ip, hip⟩ := ha.dtn
  obtain ⟨disk, hdisk⟩ := ha.disk
  obtain ⟨sf, hsf⟩ := hst'.set "$oid" (.str site)
  obtain ⟨df, hdf⟩ := hopen.set "site" (.obj sf)
  have hopens : sub.job.Opens := ⟨jf, by rw [hjob]; rfl⟩
  obtain ⟨jf₁, hjf₁⟩ := hopens.set "dst" (.obj df)
  have h₁ : sub.job.setIn ["dst", "site", "$oid"] (.str site)
      = .ok (.obj jf₁) := by
    obtain ⟨old, hold⟩ := hst'.get "$oid"
    unfold Json.setIn
    refine bind_eq_ok.2 ⟨dst, hdst, bind_eq_ok.2 ⟨.obj df, ?_, hjf₁⟩⟩
    unfold Json.setIn
    refine bind_eq_ok.2 ⟨st, hst, bind_eq_ok.2 ⟨.obj sf, ?_, hdf⟩⟩
    unfold Json.setIn
    exact bind_eq_ok.2 ⟨old, hold, bind_eq_ok.2 ⟨_, rfl, hsf⟩⟩
  have hd₁ : HasDst (.obj jf₁) := ⟨df, Json.has_of_set hjf₁⟩
  obtain ⟨job₂, h₂, hd₂⟩ := hd₁.setIn "storage" (.str storage)
  obtain ⟨job₃, h₃, hd₃⟩ := hd₂.setIn "dtn" (.str dtn)
  obtain ⟨job₄, h₄, hd₄⟩ := hd₃.setIn "dtn_addr" ip
  obtain ⟨job₅, h₅, hd₅⟩ := hd₄.setIn "path" (.str path)
  obtain ⟨job₆, h₆, _⟩ := hd₅.setIn "disk" disk
  refine ⟨_, bind_eq_ok.2 ⟨_, h₁, bind_eq_ok.2 ⟨_, h₂,
    bind_eq_ok.2 ⟨_, h₃, bind_eq_ok.2 ⟨_, hnode, bind_eq_ok.2 ⟨_, hip,
    bind_eq_ok.2 ⟨_, h₄, bind_eq_ok.2 ⟨_, h₅, bind_eq_ok.2 ⟨_, hdisk,
    bind_eq_ok.2 ⟨_, h₆, rfl⟩⟩⟩⟩⟩⟩⟩⟩⟩⟩

/-- `parse_raw_job_dst` of a submission: its destination is put into it,
off the first answer, or it is refused, and it never fails. -/
theorem parseRawJobDst_outcome {pr : Premises} (sub : Submission pr)
    {m : Mail} (hm : m.Readable) :
    tri (parseRawJobDst pr sub.job)
      (fun job m' => FromSite sub.dstsite sub.dstfile
        ∧ (∃ dtn storage path, withDestination sub.job sub.dstsite dtn
            storage path (m.outcomes m.posts.length).2 = .ok job)
        ∧ m'.outcomes = m.outcomes
        ∧ m'.posts.length = m.posts.length + 1)
      (fun _ _ => ¬ FromSite sub.dstsite sub.dstfile ∨ m.Refuses)
      (fun _ => False) m := by
  obtain ⟨info, url, hinfo, hurl⟩ := sub.dst_reaches
  unfold parseRawJobDst Inquiry.read Inquiry.post
  rw [tri_bind, tri_read_ok sub.has_dstsite, tri_bind,
    tri_read_ok sub.has_dstfile]
  split
  · rename_i site dtn store path hsplit
    split
    · rename_i hsite
      refine .inl fun hfrom => hsite ?_
      obtain ⟨_, _, _, hfrom⟩ := fromSite_iff.1 hfrom
      rw [hsplit] at hfrom
      injection hfrom with hfrom _
      exact hfrom.symm
    · rename_i hsite
      rw [tri_bind, tri_read_ok hinfo, tri_bind, tri_read_ok hurl, tri_bind,
        tri_perform]
      change tri _ _ _ _ _
      split
      · rename_i hcode
        exact .inr ⟨m.posts.length, hcode⟩
      · obtain ⟨job, hjob⟩ := withDestination_total sub
          (hm m.posts.length) sub.dstsite dtn (dtn ++ "|" ++ store) path
        rw [tri_read_ok hjob]
        refine ⟨fromSite_iff.2 ⟨dtn, store, path, ?_⟩,
          ⟨dtn, _, path, hjob⟩, rfl, ?_⟩
        · rw [hsplit, of_not_not hsite]
        · simp
  · rename_i hfields
    refine .inl fun hfrom => ?_
    obtain ⟨dtn, store, path, hfrom⟩ := fromSite_iff.1 hfrom
    exact hfields _ _ _ _ hfrom

-- ========================================================== expansions

/-- A question is not answered, or with an error. -/
def Mail.Fails (m : Mail) : Prop :=
  ∃ n, (m.outcomes n).1 ≠ 200 ∨ textOf (m.outcomes n).2 "error" ≠ .ok "OK"
    ∨ codeOf (m.outcomes n).2 ≠ .ok 0

/-- A size that was answered. -/
def Mail.Sizes (m : Mail) (size : Nat) : Prop :=
  ∃ n total, (m.outcomes n).2.get "total_size" = .ok total
    ∧ total.asUInt64 = .ok size

/-- A call that is refused fails. -/
theorem Mail.Refuses.fails {m : Mail} (h : m.Refuses) : m.Fails := by
  obtain ⟨n, hn⟩ := h
  exact ⟨n, .inl hn⟩

/-- An answer that can be read is an expansion with its rate, or not
one, or there is nothing to divide by. -/
theorem readExpansion_cases (time : Int) {r : Int × Json}
    (hr : Readable r.2) :
    (∃ x total, readExpansion time r = .ok (.ok x)
        ∧ baseRate x.size time = .ok x.baserate
        ∧ (r.2.get "total_size" = .ok total ∧ total.asUInt64 = .ok x.size)
        ∧ ∀ group ∈ x.groups, ∃ fields, groupDoc group = .ok fields)
      ∨ (∃ e, readExpansion time r = .ok (.error e)
        ∧ (r.1 ≠ 200 ∨ textOf r.2 "error" ≠ .ok "OK"
          ∨ codeOf r.2 ≠ .ok 0))
      ∨ (∃ e, readExpansion time r = .error e) ∧ time.tdiv 1000 = 0 := by
  obtain ⟨error, herror⟩ := hr.error
  obtain ⟨code, hcode⟩ := hr.code
  obtain ⟨total, size, htotal, hsize⟩ := hr.size
  obtain ⟨files, groups, hfiles, hgroups, hall⟩ := hr.groups
  unfold readExpansion
  by_cases hhttp : r.1 = 200
  · rw [if_neg (not_not.2 hhttp)]
    by_cases hok : error = "OK"
    · by_cases hzero : code = 0
      · cases hrate : baseRate size time with
        | ok rate =>
            refine .inl ⟨⟨size, rate, groups.items⟩, total, ?_, hrate,
              ⟨htotal, hsize⟩, hall⟩
            simp [herror, hok, hcode, hzero, htotal, hsize, hrate, hfiles,
              hgroups, bind, Except.bind, pure, Except.pure]
        | error e =>
            refine .inr (.inr ⟨⟨e, ?_⟩, baseRate_error hrate⟩)
            simp [herror, hok, hcode, hzero, htotal, hsize, hrate, bind,
              Except.bind, pure, Except.pure]
      · refine .inr (.inl ⟨"error expand_and_group response code", ?_,
          .inr (.inr ?_)⟩)
        · simp [herror, hok, hcode, hzero, bind, Except.bind, pure,
            Except.pure]
        · rw [hcode]
          exact fun h => hzero (Except.ok.inj h)
    · refine .inr (.inl ⟨"error expand_and_group response code", ?_,
        .inr (.inl ?_)⟩)
      · simp [herror, hok, bind, Except.bind, pure, Except.pure]
      · rw [herror]
        exact fun h => hok (Except.ok.inj h)
  · refine .inr (.inl ⟨_, if_pos hhttp, .inl hhttp⟩)

/-- Groups that have documents are all inserted. -/
theorem insertGroups_outcome {groups : List Json}
    (h : ∀ group ∈ groups, ∃ fields, groupDoc group = .ok fields)
    (s : Intake) :
    wp (insertGroups groups) (fun _ t => t.mail = s.mail) (fun _ => False)
      s := by
  induction groups generalizing s with
  | nil => rfl
  | cons group rest ih =>
      obtain ⟨⟨fields, hfields⟩, hrest⟩ := List.forall_mem_cons.1 h
      unfold insertGroups Boot.read
      rw [wp_bind, wp_read_ok hfields, wp_bind, wp_insertBlock]
      dsimp only
      rw [wp_bind]
      exact (ih hrest _).mono (fun _ _ h => h) fun _ h => h

section sources

variable {pr : Premises} {siteInfo dstPath : Json} {url : String}
  {time : Int} {s : Intake}

/-- A storage is expanded, or its site fails to, or there is nothing to
divide by. -/
theorem expandStorage_outcome (src : Source String)
    (hurl : commandUrl siteInfo = .ok url) (hm : s.mail.Readable) :
    tri (expandStorage pr siteInfo dstPath time src)
      (fun p t => t.mail.outcomes = s.mail.outcomes ∧ p.toSource = src
        ∧ baseRate p.size time = .ok p.baserate ∧ s.mail.Sizes p.size)
      (fun _ _ => s.mail.Fails) (fun _ => time.tdiv 1000 = 0) s := by
  unfold expandStorage Parse.read Parse.ask Inquiry.post
  rw [tri_bind, tri_read_ok hurl, tri_bind, tri_zoom, tri_perform]
  change tri _ _ _ _ _
  have hanswer := hm s.mail.posts.length
  rcases readExpansion_cases time hanswer with
    ⟨x, total, hx, hrate, hsize, hgroups⟩ | ⟨e, he, hfails⟩ | ⟨⟨e, he⟩, hz⟩
  · rw [tri_bind, tri_read_ok hx]
    dsimp only
    rw [tri_bind, tri_perform]
    refine (insertGroups_outcome hgroups _).mono ?_ fun _ h => h.elim
    intro r t ht
    refine ⟨?_, rfl, hrate, s.mail.posts.length, total, hsize⟩
    rw [ht]
  · rw [tri_bind, tri_read_ok he]
    exact ⟨_, hfails⟩
  · rw [tri_bind, tri_read_error he]
    exact hz

/-- All storages are expanded. -/
theorem expandStorages_outcome (smap : List (Source String))
    (hurl : commandUrl siteInfo = .ok url) (hm : s.mail.Readable) :
    tri (expandStorages pr siteInfo dstPath time smap)
      (fun parts _ => parts.map Part.toSource = smap
        ∧ ∀ p ∈ parts, baseRate p.size time = .ok p.baserate
          ∧ s.mail.Sizes p.size)
      (fun _ _ => s.mail.Fails)
      (fun _ => smap ≠ [] ∧ time.tdiv 1000 = 0) s := by
  induction smap generalizing s with
  | nil => exact ⟨rfl, fun p hp => by cases hp⟩
  | cons src rest ih =>
      unfold expandStorages
      rw [tri_bind]
      refine (expandStorage_outcome src hurl hm).mono ?_ (fun _ _ h => h)
        fun _ h => ⟨List.cons_ne_nil _ _, h⟩
      intro p t h
      obtain ⟨hout, hp, hrate, hsize⟩ := h
      have hm' : t.mail.Readable := by
        unfold Mail.Readable
        rw [hout]
        exact hm
      rw [tri_bind]
      refine (ih hm').mono ?_ ?_ fun _ h => ⟨List.cons_ne_nil _ _, h.2⟩
      · intro parts t' h
        obtain ⟨hparts, hall⟩ := h
        refine ⟨?_, List.forall_mem_cons.2 ⟨⟨hrate, hsize⟩, ?_⟩⟩
        · rw [List.map_cons, hp, hparts]
        · unfold Mail.Sizes at hall ⊢
          rw [hout] at hall
          exact hall
      · intro _ _ h
        unfold Mail.Fails at h ⊢
        rw [hout] at h
        exact h

end sources

-- ============================================================ the rates

/-- `job["deadline"].asInt64()` -/
def deadlineOf (job : Json) : Except String Int := do
  let v ← job.get "deadline"
  v.asInt64

/-- `job["submittedat"].asInt64()` -/
def submittedOf (job : Json) : Except String Int := do
  let v ← job.get "submittedat"
  v.asInt64

/-- Both times of a job can be read. -/
def Timed (job : Json) : Prop :=
  (∃ b, submittedOf job = .ok b) ∧ ∃ d, deadlineOf job = .ok d

/-- The duration is the deadline in milliseconds, in 64 bits, if the
submission time converts. -/
theorem durationOf_ok {job : Json} {time : Int} :
    durationOf job = .ok time
      ↔ (∃ b, submittedOf job = .ok b)
        ∧ ∃ d, deadlineOf job = .ok d ∧ time = (d * 1000).bmod (2 ^ 64) := by
  constructor
  · intro h
    obtain ⟨v, hv, h⟩ := bind_eq_ok.1 h
    obtain ⟨b, hb, h⟩ := bind_eq_ok.1 h
    obtain ⟨w, hw, h⟩ := bind_eq_ok.1 h
    obtain ⟨d, hd, h⟩ := bind_eq_ok.1 h
    injection h with h
    exact ⟨⟨b, bind_eq_ok.2 ⟨v, hv, hb⟩⟩, d, bind_eq_ok.2 ⟨w, hw, hd⟩,
      h.symm⟩
  · intro h
    obtain ⟨⟨b, hb⟩, d, hd, rfl⟩ := h
    obtain ⟨v, hv, hb⟩ := bind_eq_ok.1 hb
    obtain ⟨w, hw, hd⟩ := bind_eq_ok.1 hd
    exact bind_eq_ok.2 ⟨v, hv, bind_eq_ok.2 ⟨b, hb,
      bind_eq_ok.2 ⟨w, hw, bind_eq_ok.2 ⟨d, hd, rfl⟩⟩⟩⟩

/-- A job is timed if it has a duration. -/
theorem timed_iff {job : Json} :
    Timed job ↔ ∃ time, durationOf job = .ok time := by
  constructor
  · intro h
    obtain ⟨hb, d, hd⟩ := h
    exact ⟨_, durationOf_ok.2 ⟨hb, d, hd, rfl⟩⟩
  · intro h
    obtain ⟨time, h⟩ := h
    obtain ⟨hb, d, hd, _⟩ := durationOf_ok.1 h
    exact ⟨hb, d, hd⟩

/-- An integer has 64 bits. -/
theorem asInt64_range {v : Json} {d : Int} (h : v.asInt64 = .ok d) :
    -2 ^ 63 ≤ d ∧ d < 2 ^ 63 := by
  unfold Json.asInt64 at h
  split at h
  · injection h with h
    omega
  · injection h with h
    split at h <;> omega
  · split at h
    · injection h with h
      omega
    · cases h
  · split at h
    · injection h with h
      subst h
      exact ⟨Int64.le_toInt _, Int64.toInt_lt _⟩
    · cases h
  · cases h

/-- So has a deadline. -/
theorem deadlineOf_range {job : Json} {d : Int} (h : deadlineOf job = .ok d) :
    -2 ^ 63 ≤ d ∧ d < 2 ^ 63 := by
  obtain ⟨v, _, h⟩ := bind_eq_ok.1 h
  exact asInt64_range h

/-- The seconds of a deadline as they are divided by: the deadline times
1000 in 64 bits, divided by 1000 again. -/
def wrappedSeconds (d : Int) : Int := ((d * 1000).bmod (2 ^ 64)).tdiv 1000

/-- A size divided by these seconds is the size divided by the deadline,
which is positive. -/
def DividesBy (d : Int) (size : Nat) : Prop :=
  0 < d ∧ wrappedSeconds d ≠ 0
    ∧ size / (wrappedSeconds d % 2 ^ 64).toNat = size / d.toNat

/-- The last deadline whose milliseconds fit in 64 bits. -/
def lastDeadline : Int := 9223372036854775

/-- Up to the last that fits, the seconds are the deadline. -/
theorem wrappedSeconds_eq {d : Int} (hd : 0 < d) (hle : d ≤ lastDeadline) :
    wrappedSeconds d = d := by
  unfold lastDeadline at hle
  unfold wrappedSeconds
  rw [Int.bmod_eq_of_le (by omega) (by omega)]
  exact Int.mul_tdiv_cancel d (by omega)

/-- Up to it the division is safe. -/
theorem dividesBy_of_le {d : Int} (hd : 0 < d) (hle : d ≤ lastDeadline)
    (size : Nat) : DividesBy d size := by
  have hlast := hle
  unfold lastDeadline at hlast
  refine ⟨hd, ?_, ?_⟩
  · rw [wrappedSeconds_eq hd hle]
    omega
  · rw [wrappedSeconds_eq hd hle, Int.emod_eq_of_lt (by omega) (by omega)]

/-- Every size is divided by the deadline exactly up to the last one. -/
theorem dividesBy_all {d : Int} (hlt : d < 2 ^ 63) :
    (∀ size, size < 2 ^ 64 → DividesBy d size)
      ↔ 0 < d ∧ d ≤ lastDeadline := by
  constructor
  · intro h
    obtain ⟨hd, hne, _⟩ := h 0 (by omega)
    refine ⟨hd, ?_⟩
    by_contra hgt
    unfold lastDeadline at hgt
    -- what is divided by is less than any later deadline, or far more
    have hrange : -lastDeadline ≤ wrappedSeconds d
        ∧ wrappedSeconds d ≤ lastDeadline := by
      have hlow := Int.le_bmod (x := d * 1000) (m := 2 ^ 64) (by omega)
      have hhigh := Int.bmod_lt (x := d * 1000) (m := 2 ^ 64) (by omega)
      unfold wrappedSeconds lastDeadline
      generalize (d * 1000).bmod (2 ^ 64) = w at hlow hhigh
      have habs : (w.tdiv 1000).natAbs = w.natAbs / 1000 :=
        Int.natAbs_tdiv w 1000
      omega
    unfold lastDeadline at hrange
    generalize hk : (wrappedSeconds d % 2 ^ 64).toNat = k at h
    have hpos : 0 < k ∧ k < 2 ^ 64 ∧ k ≠ d.toNat := by omega
    by_cases hlt' : k < d.toNat
    · have hquot := (h k hpos.2.1).2.2
      rw [hk, Nat.div_self hpos.1, Nat.div_eq_of_lt hlt'] at hquot
      cases hquot
    · have hquot := (h d.toNat (by omega)).2.2
      rw [hk, Nat.div_self (by omega), Nat.div_eq_of_lt (by omega)] at hquot
      cases hquot
  · intro h size _
    exact dividesBy_of_le h.1 h.2 size

-- ======================================================= the functions

/-- In a parsed job the base rate of every storage is its size divided by
the deadline, which is positive. -/
def Rated (job parsed : Json) : Prop :=
  ∀ src, parsed.get "src" = .ok src → ∀ p ∈ src.items,
    ∃ (d : Int) (size rate : Nat), deadlineOf job = .ok d ∧ 0 < d
      ∧ p.get "size" = .ok (.int size) ∧ p.get "baserate" = .ok (.int rate)
      ∧ rate = size / d.toNat

/-- All rates can be computed if all sizes can be divided. -/
theorem rated_iff {α : Type} {render : α → Json} {job parsed : Json}
    {parts : List (Part α)} {d : Int} (hd : deadlineOf job = .ok d)
    (hsrc : parsed.Has "src" (.arr (parts.map (Part.toJson render))))
    (hrate : ∀ p ∈ parts,
      baseRate p.size ((d * 1000).bmod (2 ^ 64)) = .ok p.baserate) :
    Rated job parsed ↔ ∀ p ∈ parts, DividesBy d p.size := by
  have hsize : ∀ p : Part α,
      (p.toJson render).get "size" = .ok (.int p.size) := by
    intro p
    simp [Part.toJson_eq, partFields, Json.assignAll, Json.lookup_assign]
  have hbase : ∀ p : Part α,
      (p.toJson render).get "baserate" = .ok (.int p.baserate) := by
    intro p
    simp [Part.toJson_eq, partFields, Json.assignAll, Json.lookup_assign]
  constructor
  · intro h p hp
    obtain ⟨hne, heq⟩ := baseRate_ok (hrate p hp)
    obtain ⟨d', size, rate, hd', hpos, hs, hb, hquot⟩ :=
      h _ hsrc.get (p.toJson render) (List.mem_map_of_mem hp)
    rw [hd] at hd'
    injection hd' with hd'
    subst hd'
    rw [hsize p] at hs
    rw [hbase p] at hb
    injection hs with hs
    injection hs with hs
    injection hb with hb
    injection hb with hb
    refine ⟨hpos, hne, ?_⟩
    have hs' : p.size = size := by exact_mod_cast hs
    have hb' : p.baserate = rate := by exact_mod_cast hb
    rw [← hs', ← hb', heq] at hquot
    exact hquot
  · intro h src hsrc' p hp
    rw [hsrc.get] at hsrc'
    injection hsrc' with hsrc'
    subst hsrc'
    obtain ⟨q, hq, rfl⟩ := List.mem_map.1 hp
    obtain ⟨_, heq⟩ := baseRate_ok (hrate q hq)
    obtain ⟨hpos, _, hquot⟩ := h q hq
    exact ⟨d, q.size, q.baserate, hd, hpos, hsize q, hbase q,
      heq.trans hquot⟩

namespace SourceSubmission

variable {pr : Premises} (sub : SourceSubmission pr)

/-- The sources of a plain job. -/
def sources : List String := split sub.srcfile ','

/-- All of them are of the site. -/
def Listed : Prop := ∀ src ∈ sub.sources, FromSite sub.srcsite src

/-- All files of a dataset are of the site. -/
def FilesListed : Prop := ∀ f ∈ sub.files, FromSite sub.srcsite f.src

/-- The files before the first one that is not have destination
directories. -/
def HasDirs : Prop :=
  ∀ f ∈ sub.files.takeWhile fun f => FromSite sub.srcsite f.src, f.HasDir

/-- There is nothing to divide by. -/
def NoSeconds : Prop :=
  ∃ d, deadlineOf sub.job = .ok d ∧ wrappedSeconds d = 0

/-- A duration that comes to no seconds. -/
theorem noSeconds {time : Int} (h : durationOf sub.job = .ok time)
    (hzero : time.tdiv 1000 = 0) : sub.NoSeconds := by
  obtain ⟨_, d, hd, rfl⟩ := durationOf_ok.1 h
  exact ⟨d, hd, hzero⟩

end SourceSubmission

/-- The storages of a listing are there if sources are. -/
theorem Lists.smap_eq_nil {α : Type} {job siteInfo : Json}
    {srcsite : String} {origins : List (Origin α)} {l : Listed α}
    (h : Lists job siteInfo srcsite origins l) :
    l.smap = [] ↔ origins = [] := by
  obtain ⟨pairs, hmade, hgrouped⟩ := h.made
  have hlen := hmade.length_eq
  constructor
  · intro hnil
    cases pairs with
    | nil => exact List.eq_nil_of_length_eq_zero hlen
    | cons p rest =>
        have hmem := (hgrouped.named p.1).2 (List.mem_cons_self ..)
        rw [hnil] at hmem
        cases hmem
  · intro hnil
    rw [hnil] at hlen
    obtain rfl := List.eq_nil_of_length_eq_zero hlen.symm
    apply List.eq_nil_iff_forall_not_mem.2
    intro s hs
    have hmem := (hgrouped.named s.srcstorage).1 (List.mem_map_of_mem hs)
    cases hmem

/-- A file from the site has a storage. -/
theorem DatasetFile.storage_of_fromSite {srcsite : String}
    {f : DatasetFile} (h : FromSite srcsite f.src) :
    ∃ st, f.storage? = some st := by
  obtain ⟨dtn, store, path, hsplit⟩ := fromSite_iff.1 h
  refine ⟨dtn ++ "|" ++ store, ?_⟩
  unfold DatasetFile.storage?
  rw [hsplit]

/-- The files of a listing have destination directories. -/
theorem Lists.hasDir {job siteInfo : Json} {srcsite : String}
    {files : List DatasetFile} {l : Listed DatasetEntry}
    (h : Lists job siteInfo srcsite (files.map DatasetFile.origin) l) :
    ∀ f ∈ files, f.HasDir := by
  intro f hf
  obtain ⟨pairs, hmade, _⟩ := h.made
  rw [List.forall₂_map_left_iff] at hmade
  obtain ⟨p, _, dtn, store, path, _, _, hentry⟩ :=
    Collection.mem_right_of_forall₂ hmade hf
  exact datasetEntry_ok.1 ⟨p.2, hentry⟩

section outcomes

variable {pr : Premises} (sub : SourceSubmission pr) {s : Intake}

/-- `parse_raw_job_src` of a submission. -/
theorem parseRawJobSrc_outcome (hm : s.mail.Readable) :
    tri (parseRawJobSrc pr sub.job)
      (fun parsed _ => sub.Listed ∧ ∃ time parts,
        durationOf sub.job = .ok time
        ∧ parsed.Has "src" (.arr (parts.map (Part.toJson Json.str)))
        ∧ (∀ p ∈ parts, baseRate p.size time = .ok p.baserate
            ∧ s.mail.Sizes p.size)
        ∧ (parts = [] ↔ sub.sources = []))
      (fun _ _ => ¬ sub.Listed ∨ s.mail.Fails)
      (fun _ => sub.Listed ∧ (¬ Timed sub.job
        ∨ sub.sources ≠ [] ∧ sub.NoSeconds)) s := by
  obtain ⟨o, hid⟩ := sub.id
  obtain ⟨user, huser⟩ := sub.user
  obtain ⟨info, url, hinfo, hurl⟩ := sub.reaches
  obtain ⟨path, hpath⟩ := sub.has_path
  have hnil : ((split sub.srcfile ',').map fun src =>
      ((src, .ok) : Origin String)) = [] ↔ sub.sources = [] :=
    List.map_eq_nil_iff
  unfold parseRawJobSrc Parse.ask Parse.read
  rw [tri_bind, tri_zoom]
  refine (listSources_outcome huser sub.has_srcsite sub.has_srcfile hinfo
    hurl hm).mono ?_ ?_ ?_
  · intro l m h
    obtain ⟨hout, hlists⟩ := h
    have hlisted : sub.Listed := fun src hsrc =>
      hlists.fromSite (src, .ok) (List.mem_map.2 ⟨src, hsrc, rfl⟩)
    have hempty := hlists.smap_eq_nil.trans hnil
    have hm' : ({ s with mail := m } : Intake).mail.Readable := by
      unfold Mail.Readable
      rw [hout]
      exact hm
    rw [tri_bind, tri_read_ok hpath, tri_bind]
    have hurl' : commandUrl l.siteInfo = .ok url := by
      rw [hlists.siteInfo_eq]
      exact hurl
    refine (expandStorages_outcome l.smap hurl' hm').mono ?_ ?_ ?_
    · intro parts t h
      obtain ⟨hparts, hall⟩ := h
      refine (withSources_outcome t).mono ?_ (fun _ _ h => h.elim)
        fun _ h => absurd ⟨o, hid⟩ h
      intro parsed t' h
      refine ⟨hlisted, l.time, parts, hlists.time, h.1, ?_, ?_⟩
      · unfold Mail.Sizes at hall ⊢
        rw [← hout]
        exact hall
      · rw [← hempty, ← hparts, List.map_eq_nil_iff]
    · intro _ _ h
      refine .inr ?_
      unfold Mail.Fails at h ⊢
      rw [← hout]
      exact h
    · intro _ h
      exact ⟨hlisted, .inr ⟨fun hnone => h.1 (hempty.2 hnone),
        sub.noSeconds hlists.time h.2⟩⟩
  · intro _ _ h
    exact h.imp_right Mail.Refuses.fails
  · intro _ h
    rw [← timed_iff] at h
    exact ⟨h.1, .inl h.2⟩

/-- `parse_raw_job_src_ds` of a submission. -/
theorem parseRawJobSrcDs_outcome (hm : s.mail.Readable) :
    tri (parseRawJobSrcDs pr sub.job)
      (fun parsed _ => sub.FilesListed ∧ sub.HasDirs ∧ ∃ time,
        ∃ parts : List (Part DatasetEntry), durationOf sub.job = .ok time
        ∧ parsed.Has "src"
          (.arr (parts.map (Part.toJson DatasetEntry.toJson)))
        ∧ (∀ p ∈ parts, baseRate p.size time = .ok p.baserate
            ∧ p.size = DatasetFile.total sub.files p.srcstorage % 2 ^ 64)
        ∧ (∀ st, st ∈ (parts.map fun p => p.srcstorage)
            ↔ ∃ f ∈ sub.files, f.storage? = some st))
      (fun _ _ => (sub.HasDirs ∧ ¬ sub.FilesListed) ∨ s.mail.Refuses)
      (fun _ => ¬ sub.HasDirs ∨ sub.FilesListed ∧ (¬ Timed sub.job
        ∨ sub.files ≠ [] ∧ sub.NoSeconds)) s := by
  obtain ⟨o, hid⟩ := sub.id
  obtain ⟨user, huser⟩ := sub.user
  obtain ⟨info, url, hinfo, hurl⟩ := sub.reaches
  obtain ⟨v, hv, hitems⟩ := sub.has_files
  unfold parseRawJobSrcDs Parse.ask
  rw [tri_bind, tri_zoom]
  refine (listFiles_outcome huser sub.has_srcsite hinfo hurl hv hitems
    hm).mono ?_ (fun _ _ h => h) ?_
  · intro l m h
    obtain ⟨_, hlists⟩ := h
    have hlisted : sub.FilesListed := fun f hf =>
      hlists.fromSite f.origin (List.mem_map_of_mem hf)
    rw [tri_bind, tri_perform]
    refine (datasetStorages_outcome l.time l.smap _).mono ?_ ?_
    · intro parts t h
      obtain ⟨hparts, docs, hdocs, _⟩ := h
      obtain ⟨_, hof, hnamed⟩ := hlists.parts hparts
      refine (withSources_outcome t).mono ?_ (fun _ _ h => h.elim)
        fun _ h => absurd ⟨o, hid⟩ h
      intro parsed t' h
      refine ⟨hlisted, fun f hf => hlists.hasDir f
          (List.takeWhile_subset _ hf), l.time, parts, hlists.time, h.1, ?_,
        hnamed⟩
      intro p hp
      obtain ⟨d, _, hd⟩ := Collection.mem_right_of_forall₂ hdocs hp
      have hread := entrySizes_made (hof p hp)
      rw [hd.size] at hread
      injection hread with hread
      exact ⟨hd.rate, hread⟩
    · intro _ h
      refine .inr ⟨hlisted, .inr ?_⟩
      rcases h with h | h
      · obtain ⟨src, hsrc, h⟩ := h
        obtain ⟨pairs, hmade, hgrouped⟩ := hlists.made
        rw [hgrouped.paths src hsrc] at h
        exact absurd ⟨_, entrySizes_made (made_of_storage hmade _)⟩ h
      · refine ⟨fun hnone => h.1 (hlists.smap_eq_nil.2 ?_),
          sub.noSeconds hlists.time h.2⟩
        rw [hnone]
        rfl
  · intro _ h
    rw [← timed_iff] at h
    exact h.imp_right fun h => ⟨h.1, .inl h.2⟩

end outcomes

-- ============================================================ totality

/-- Whatever can be read of the answers: a destination is parsed or
refused, and so are the sources, with the size divided by the deadline
as the base rate of every storage. -/
def ParsesSafely (pr : Premises) (job : Json) : Prop :=
  ∀ s : Intake, s.mail.Readable →
    tri (parseRawJobDst pr job) (fun _ _ => True) (fun _ _ => True)
        (fun _ => False) s.mail
      ∧ tri (parseRawJobSrc pr job) (fun parsed _ => Rated job parsed)
        (fun _ _ => True) (fun _ => False) s
      ∧ tri (parseRawJobSrcDs pr job) (fun parsed _ => Rated job parsed)
        (fun _ _ => True) (fun _ => False) s

/-- An answer for every question: the DTN has no address, and there is
one expansion of this size. -/
def expansionOf (size : Nat) : Int × Json :=
  (200, .obj [("code", .int 0), ("error", .str "OK"),
    ("total_size", .int size)])

/-- The sample answers can be read. -/
theorem expansionOf_readable {size : Nat} (h : size < 2 ^ 64) :
    (sampleIntake (expansionOf size)).mail.Readable := by
  intro n
  exact ⟨⟨.null, rfl, .null, rfl⟩, ⟨.null, rfl⟩, ⟨"OK", rfl⟩, ⟨0, rfl⟩,
    ⟨_, size, rfl, asUInt64_nat h⟩, .null, .null, rfl, rfl,
    fun group hgroup => by cases hgroup⟩

/-- And no call fails. -/
theorem expansionOf_not_fails (size : Nat) :
    ¬ (sampleIntake (expansionOf size)).mail.Fails := by
  intro h
  obtain ⟨n, h⟩ := h
  rcases h with h | h | h
  · exact h rfl
  · exact h rfl
  · exact h rfl

/-- They tell the size. -/
theorem expansionOf_sizes {size n : Nat} (h : size < 2 ^ 64)
    (hn : (sampleIntake (expansionOf size)).mail.Sizes n) : n = size := by
  obtain ⟨_, total, htotal, hread⟩ := hn
  have htotal : total = .int size :=
    (Except.ok.inj (htotal.symm.trans rfl) : total = .int size)
  rw [htotal, asUInt64_nat h] at hread
  exact (Except.ok.inj hread).symm

namespace ParsesSafely

variable {pr : Premises} {sub : Submission pr}

/-- The sources of a plain job are expanded, to any size. -/
theorem plain (h : ParsesSafely pr sub.job) (hlisted : sub.Listed)
    {size : Nat} (hsize : size < 2 ^ 64) :
    Timed sub.job ∧ (sub.sources ≠ [] →
      ∃ d, deadlineOf sub.job = .ok d ∧ DividesBy d size) := by
  have hm := expansionOf_readable hsize
  obtain ⟨_, hsrc, _⟩ := h _ hm
  have hboth := (parseRawJobSrc_outcome sub.toSourceSubmission hm).and hsrc
  have hran := hboth.mono (fun _ _ h => h)
    (fun _ _ h => h.1.elim (fun hnot => hnot hlisted)
      (expansionOf_not_fails size)) (fun _ h => h.2)
  obtain ⟨parsed, t, ⟨_, time, parts, htime, hhas, hall, hnil⟩, hrated⟩ :=
    hran.returns
  refine ⟨timed_iff.2 ⟨time, htime⟩, ?_⟩
  intro hne
  obtain ⟨_, d, hd, rfl⟩ := durationOf_ok.1 htime
  rw [rated_iff hd hhas fun p hp => (hall p hp).1] at hrated
  cases parts with
  | nil => exact absurd (hnil.1 rfl) hne
  | cons p rest =>
      have hp := List.mem_cons_self (a := p) (l := rest)
      have hdiv := hrated p hp
      rw [expansionOf_sizes hsize (hall p hp).2] at hdiv
      exact ⟨d, hd, hdiv⟩

/-- The files of a dataset have destination directories. -/
theorem dirs (h : ParsesSafely pr sub.job) : sub.HasDirs := by
  have hm := expansionOf_readable (show 0 < 2 ^ 64 by omega)
  obtain ⟨_, _, hds⟩ := h _ hm
  by_contra hnot
  have hboth := (parseRawJobSrcDs_outcome sub.toSourceSubmission hm).and hds
  have hran := hboth.mono
    (fun _ _ h => hnot h.1.2.1)
    (fun _ _ h => h.1.elim (fun h => hnot h.1)
      fun h => expansionOf_not_fails 0 h.fails) (fun _ h => h.2)
  obtain ⟨_, _, hfalse⟩ := hran.returns
  exact hfalse

/-- The files of a dataset are divided by the deadline. -/
theorem dataset (h : ParsesSafely pr sub.job)
    (hlisted : sub.FilesListed) :
    Timed sub.job ∧ ∀ f ∈ sub.files, ∀ st, f.storage? = some st →
      ∃ d, deadlineOf sub.job = .ok d
        ∧ DividesBy d (DatasetFile.total sub.files st % 2 ^ 64) := by
  have hm := expansionOf_readable (show 0 < 2 ^ 64 by omega)
  obtain ⟨_, _, hds⟩ := h _ hm
  have hboth := (parseRawJobSrcDs_outcome sub.toSourceSubmission hm).and hds
  have hran := hboth.mono
    (fun _ _ h => h)
    (fun _ _ h => h.1.elim (fun h => h.2 hlisted)
      fun h => expansionOf_not_fails 0 h.fails) (fun _ h => h.2)
  obtain ⟨parsed, t, ⟨_, _, time, parts, htime, hhas, hall, hnamed⟩,
    hrated⟩ := hran.returns
  refine ⟨timed_iff.2 ⟨time, htime⟩, ?_⟩
  intro f hf st hst
  obtain ⟨_, d, hd, rfl⟩ := durationOf_ok.1 htime
  rw [rated_iff hd hhas fun p hp => (hall p hp).1] at hrated
  obtain ⟨p, hp, rfl⟩ := List.mem_map.1 ((hnamed st).2 ⟨f, hf, hst⟩)
  have hdiv := hrated p hp
  rw [(hall p hp).2] at hdiv
  exact ⟨d, hd, hdiv⟩

end ParsesSafely

/-- Parsing is total and the rates are right exactly when the deadline of
a job with sources of its site is a positive one whose milliseconds fit,
the dataset files up to the first that is refused have destination
directories, and the sizes of a dataset of the site are divided by its
deadline. -/
theorem parsing_total_iff {pr : Premises} (sub : Submission pr) :
    ParsesSafely pr sub.job
      ↔ (sub.Listed → Timed sub.job ∧ (sub.sources ≠ [] →
            ∃ d, deadlineOf sub.job = .ok d ∧ 0 < d ∧ d ≤ lastDeadline))
        ∧ sub.HasDirs
        ∧ (sub.FilesListed → Timed sub.job
            ∧ ∀ f ∈ sub.files, ∀ st, f.storage? = some st →
              ∃ d, deadlineOf sub.job = .ok d
                ∧ DividesBy d (DatasetFile.total sub.files st % 2 ^ 64)) := by
  constructor
  · intro h
    refine ⟨?_, h.dirs, h.dataset⟩
    intro hlisted
    have hzero : 0 < 2 ^ 64 := by omega
    refine ⟨(h.plain hlisted hzero).1, ?_⟩
    intro hne
    obtain ⟨d, hd, _⟩ := (h.plain hlisted hzero).2 hne
    refine ⟨d, hd, (dividesBy_all (deadlineOf_range hd).2).1 ?_⟩
    intro size hsize
    obtain ⟨d', hd', hdiv⟩ := (h.plain hlisted hsize).2 hne
    rw [hd] at hd'
    injection hd' with hd'
    exact hd' ▸ hdiv
  · intro h s hm
    obtain ⟨hplain, hdirs, hds⟩ := h
    refine ⟨(parseRawJobDst_outcome sub hm).mono (fun _ _ _ => trivial)
      (fun _ _ _ => trivial) fun _ h => h, ?_, ?_⟩
    · refine (parseRawJobSrc_outcome sub.toSourceSubmission hm).mono ?_
        (fun _ _ _ => trivial) ?_
      · intro parsed _ h
        obtain ⟨hlisted, time, parts, htime, hhas, hall, hnil⟩ := h
        obtain ⟨_, d, hd, rfl⟩ := durationOf_ok.1 htime
        rw [rated_iff hd hhas fun p hp => (hall p hp).1]
        intro p hp
        obtain ⟨d', hd', hpos, hle⟩ := (hplain hlisted).2 fun hnone => by
          rw [hnil.2 hnone] at hp
          cases hp
        rw [hd] at hd'
        injection hd' with hd'
        subst hd'
        exact dividesBy_of_le hpos hle p.size
      · intro _ h
        obtain ⟨hlisted, h | h⟩ := h
        · exact h (hplain hlisted).1
        · obtain ⟨hne, d, hd, hzero⟩ := h
          obtain ⟨d', hd', hpos, hle⟩ := (hplain hlisted).2 hne
          rw [hd] at hd'
          injection hd' with hd'
          subst hd'
          rw [wrappedSeconds_eq hpos hle] at hzero
          omega
    · refine (parseRawJobSrcDs_outcome sub.toSourceSubmission hm).mono ?_
        (fun _ _ _ => trivial) ?_
      · intro parsed _ h
        obtain ⟨hlisted, _, time, parts, htime, hhas, hall, hnamed⟩ := h
        obtain ⟨_, d, hd, rfl⟩ := durationOf_ok.1 htime
        rw [rated_iff hd hhas fun p hp => (hall p hp).1]
        intro p hp
        obtain ⟨f, hf, hst⟩ :=
          (hnamed p.srcstorage).1 (List.mem_map.2 ⟨p, hp, rfl⟩)
        obtain ⟨d', hd', hdiv⟩ := (hds hlisted).2 f hf _ hst
        rw [hd] at hd'
        injection hd' with hd'
        subst hd'
        rw [(hall p hp).2]
        exact hdiv
      · intro _ h
        rcases h with h | h
        · exact h hdirs
        · obtain ⟨hlisted, h | h⟩ := h
          · exact h (hds hlisted).1
          · obtain ⟨hne, d, hd, hzero⟩ := h
            obtain ⟨f, rest, hcons⟩ := List.exists_cons_of_ne_nil hne
            have hf : f ∈ sub.files := hcons ▸ List.mem_cons_self ..
            obtain ⟨st, hst⟩ := DatasetFile.storage_of_fromSite
              (hlisted f hf)
            obtain ⟨d', hd', hdiv⟩ := (hds hlisted).2 f hf st hst
            rw [hd] at hd'
            injection hd' with hd'
            subst hd'
            exact hdiv.2.1 hzero

/-- The sample job is found. -/
theorem sample_reaches : samplePremises.Reaches sampleId.text := by
  have hinfo : samplePremises.getSiteInfo sampleId.text
      = .ok (Document.toJson ⟨sampleId, [("url", .str "site.example")]⟩) := by
    unfold Premises.getSiteInfo
    rw [ObjectId.parse_text]
    rfl
  exact ⟨_, "https://site.example/bde/command", hinfo, rfl⟩

/-- A submission between two disks of one site. -/
def sampleSubmission (deadline : Int) (srcfile : String)
    (files : List DatasetFile) : Submission samplePremises where
  job := .obj [("_id", sampleId.toJson), ("deadline", .int deadline),
    ("dstfile", .str ""), ("dstsite", sampleId.toJson),
    ("files", .arr (files.map DatasetFile.toJson)),
    ("srcfile", .str srcfile), ("srcsite", sampleId.toJson),
    ("user", sampleId.toJson)]
  srcsite := sampleId.text
  srcfile := srcfile
  files := files
  id := ⟨sampleId, _, rfl, rfl⟩
  user := ⟨_, rfl⟩
  has_srcsite := rfl
  dstsite := sampleId.text
  dstfile := ""
  has_dstsite := rfl
  dst_reaches := sample_reaches
  has_srcfile := rfl
  has_dstfile := rfl
  has_files := ⟨_, rfl, rfl⟩
  has_path := ⟨_, rfl⟩
  dst := ⟨.null, .null, rfl, ⟨[], rfl⟩, rfl, [], rfl⟩
  reaches := sample_reaches

/-- A path of the site, as it is submitted. -/
def samplePath (rest : String) : String := sampleId.text ++ "|" ++ rest

/-- A run that ended in an exception. -/
def throws {α : Type} (x : Parse α) (s : Intake) : Bool :=
  match x.run s with
  | .ok _ _ => false
  | .error _ _ => true

/-- What throws is not safe. -/
theorem not_tri_of_throws {α : Type} {x : Parse α} {s : Intake}
    {Q : α → Intake → Prop} {R : String → Intake → Prop}
    (h : throws x s = true) : ¬ tri x Q R (fun _ => False) s := by
  unfold throws at h
  unfold tri
  split at h
  · cases h
  · rename_i hx
    rw [hx]
    exact id

/-- A run that throws is not safe. -/
theorem ParsesSafely.not_of_throws {pr : Premises} {job : Json} {s : Intake}
    (hm : s.mail.Readable)
    (h : throws (parseRawJobSrc pr job) s = true
      ∨ throws (parseRawJobSrcDs pr job) s = true) :
    ¬ ParsesSafely pr job := by
  intro hsafe
  obtain ⟨_, hsrc, hds⟩ := hsafe s hm
  rcases h with h | h
  · exact not_tri_of_throws h hsrc
  · exact not_tri_of_throws h hds

/-- Without a deadline there is a division by zero, and a destination of
three fields, or with an empty path before another field, is read beyond
its end. -/
theorem parsing_not_total :
    (¬ ParsesSafely samplePremises
        (sampleSubmission 0 (samplePath "dtn|disk|/data/a") []).job)
      ∧ (¬ ParsesSafely samplePremises (sampleSubmission 60 ""
        [⟨samplePath "dtn|disk|/data/a", samplePath "dtn|disk", 5, []⟩]).job)
      ∧ ¬ ParsesSafely samplePremises (sampleSubmission 60 ""
        [⟨samplePath "dtn|disk|/data/a", samplePath "dtn|disk||x", 5,
          []⟩]).job := by
  have hm := expansionOf_readable (show 7 < 2 ^ 64 by omega)
  refine ⟨ParsesSafely.not_of_throws hm (.inl ?_),
    ParsesSafely.not_of_throws hm (.inr ?_),
    ParsesSafely.not_of_throws hm (.inr ?_)⟩
  · decide +kernel
  · decide +kernel
  · decide +kernel

end BigDataExpress

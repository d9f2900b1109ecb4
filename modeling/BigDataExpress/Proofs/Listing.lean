/-
What the loops over the sources of a job gather.

Both parsing functions take one source after the other and differ in
what they make of its path; `gatherOrigins` is the loop they share. It ends
in one of three ways, and which one is decided by the sources and the
answers of their site: all of them are grouped by their storages
(`Gathered.Groups`), or one is not of the site or a DTN is refused, or
something cannot be made of the path of one that was taken
(`gatherOrigins_outcome`).
-/
import BigDataExpress.Proofs.Bootstrap

namespace BigDataExpress

open Stateful

-- ============================================================ the answers

/-- What is read of an answer can be. -/
structure Readable (v : Json) : Prop where
  dtn : ∃ node, v.get "dtn" = .ok node ∧ ∃ ip, ctrlIp node = .ok ip
  disk : ∃ disk, v.get "disk" = .ok disk
  error : ∃ e, textOf v "error" = .ok e
  code : ∃ c, codeOf v = .ok c
  size : ∃ total n, v.get "total_size" = .ok total ∧ total.asUInt64 = .ok n
  groups : ∃ files groups, v.get "files" = .ok files
    ∧ files.get "groups" = .ok groups
    ∧ ∀ group ∈ groups.items, ∃ fields, groupDoc group = .ok fields

/-- The portals answer with the members that are read, or without
them. -/
def Mail.Readable (m : Mail) : Prop :=
  ∀ n, BigDataExpress.Readable (m.outcomes n).2

/-- A question is not answered with 200. -/
def Mail.Refuses (m : Mail) : Prop := ∃ n, (m.outcomes n).1 ≠ 200

-- ============================================================= the loop

/-- A field has no delimiter in it. -/
theorem delim_not_mem {s field : String} {delim : Char}
    (h : field ∈ split s delim) : delim ∉ field.toList := by
  have hpieces : ∀ cs : List Char, ∀ piece ∈ cs.splitOn delim,
      delim ∉ piece := by
    intro cs
    induction cs with
    | nil =>
        intro piece hpiece
        rw [List.splitOn_nil, List.mem_singleton] at hpiece
        rw [hpiece]
        exact List.not_mem_nil
    | cons c cs ih =>
        intro piece hpiece
        rw [List.splitOn_cons_eq_if_modifyHead] at hpiece
        split at hpiece
        · rcases List.mem_cons.1 hpiece with rfl | hpiece
          · exact List.not_mem_nil
          · exact ih piece hpiece
        · rename_i hc
          cases hrest : cs.splitOn delim with
          | nil => exact absurd hrest (List.splitOn_ne_nil _ _)
          | cons first rest =>
              rw [hrest] at hpiece ih
              rcases List.mem_cons.1 hpiece with rfl | hpiece
              · intro hmem
                rcases List.mem_cons.1 hmem with rfl | hmem
                · exact hc (beq_self_eq_true _)
                · exact ih first (List.mem_cons_self ..) hmem
              · exact ih piece (List.mem_cons_of_mem _ hpiece)
  unfold split at h
  obtain ⟨piece, hpiece, rfl⟩ := List.mem_map.1 h
  rw [String.toList_ofList]
  refine hpieces s.toList piece ?_
  split at hpiece
  · exact List.dropLast_subset _ hpiece
  · exact hpiece

/-- A source has four fields, of which the first is the site. -/
def FromSite (srcsite src : String) : Prop :=
  (split src '|').length = 4 ∧ (split src '|').head? = some srcsite

instance (srcsite src : String) : Decidable (FromSite srcsite src) :=
  inferInstanceAs (Decidable (_ ∧ _))

theorem fromSite_iff {srcsite src : String} :
    FromSite srcsite src
      ↔ ∃ dtn store path, split src '|' = [srcsite, dtn, store, path] := by
  unfold FromSite
  constructor
  · intro h
    match hsplit : split src '|', h.1, h.2 with
    | [site, dtn, store, path], _, hhead =>
        injection hhead with hhead
        exact ⟨dtn, store, path, by rw [hhead]⟩
  · intro h
    obtain ⟨dtn, store, path, hsplit⟩ := h
    rw [hsplit]
    exact ⟨rfl, rfl⟩

section origins

variable {α : Type} {siteInfo : Json} {srcsite : String} {m m₀ : Mail}

/-- A source, and what is made of its path. -/
abbrev Origin (α : Type) : Type := String × (String → Except String α)

/-- The loop over the sources. -/
def gatherOrigins (siteInfo : Json) (srcsite : String) :
    List (Origin α) → Gathered α → Inquiry (Gathered α)
  | [], g => pure g
  | origin :: rest, g => do
      let g ← gatherSource siteInfo srcsite (split origin.1 '|') origin.2 g
      gatherOrigins siteInfo srcsite rest g

theorem gatherSources_eq (srcs : List String) (g : Gathered String) :
    gatherSources siteInfo srcsite srcs g
      = gatherOrigins siteInfo srcsite (srcs.map fun src => (src, .ok)) g := by
  induction srcs generalizing g with
  | nil => rfl
  | cons src rest ih =>
      unfold gatherSources
      simp only [ih]
      rfl

/-- The storage of a source, and what is made of its path. -/
def Origin.Makes (srcsite : String) (origin : Origin α) (p : String × α) :
    Prop :=
  ∃ dtn store path, split origin.1 '|' = [srcsite, dtn, store, path]
    ∧ p.1 = dtn ++ "|" ++ store ∧ origin.2 path = .ok p.2

/-- Something can be made of every path, up to the first source that is
not of the site. -/
def Usable (srcsite : String) : List (Origin α) → Prop
  | [] => True
  | origin :: rest => ∀ dtn store path,
      split origin.1 '|' = [srcsite, dtn, store, path] →
        (∃ e, origin.2 path = .ok e) ∧ Usable srcsite rest

theorem Origin.Makes.usable {origin : Origin α} {rest : List (Origin α)}
    {p : String × α} (h : origin.Makes srcsite p) :
    Usable srcsite (origin :: rest) ↔ Usable srcsite rest := by
  obtain ⟨dtn, store, path, hsplit, _, hentry⟩ := h
  constructor
  · exact fun hall => (hall dtn store path hsplit).2
  · intro hrest dtn' store' path' hsplit'
    rw [hsplit] at hsplit'
    injection hsplit' with _ hsplit'
    injection hsplit' with _ hsplit'
    injection hsplit' with _ hsplit'
    injection hsplit' with hpath _
    subst hpath
    exact ⟨⟨p.2, hentry⟩, hrest⟩

-- ======================================================== the grouping

/-- These entries, each under its storage and in the order they came. -/
structure Grouped (pairs : List (String × α)) (smap : List (Source α)) :
    Prop where
  nodup : (smap.map Source.srcstorage).Nodup
  named : ∀ storage, storage ∈ smap.map Source.srcstorage
    ↔ storage ∈ pairs.map Prod.fst
  paths : ∀ s ∈ smap, s.srcpath
    = (pairs.filter fun p => p.1 = s.srcstorage).map Prod.snd

/-- A storage named by its DTN, in which there is no bar. -/
def Source.OfDtn (s : Source α) : Prop :=
  '|' ∉ s.srcdtn.toList ∧ ∃ store, s.srcstorage = s.srcdtn ++ "|" ++ store

/-- What has been gathered are these entries; if the answers are
legible, the DTNs that were asked for have an address, or none. -/
structure Gathered.Groups (legible : Prop) (pairs : List (String × α))
    (g : Gathered α) : Prop extends Grouped pairs g.smap where
  dtns : ∀ s ∈ g.smap, s.OfDtn
  readable : legible → ∀ dtn node, Json.lookup dtn g.dtninfo = some node →
    ∃ ip, ctrlIp node = .ok ip

theorem addStorage_perm (s : Source α) (smap : List (Source α)) :
    (addStorage s smap).Perm (s :: smap) := by
  induction smap with
  | nil => exact List.Perm.refl _
  | cons t rest ih =>
      unfold addStorage
      split
      · exact List.Perm.refl _
      · exact (ih.cons t).trans (List.Perm.swap s t rest)

theorem appendPath_storages (storage : String) (e : α)
    (smap : List (Source α)) :
    (appendPath storage e smap).map Source.srcstorage
      = smap.map Source.srcstorage := by
  unfold appendPath
  exact Collection.map_updateOne (by intro s; rfl) smap

namespace Grouped

variable {pairs : List (String × α)} {smap : List (Source α)}

theorem empty : Grouped ([] : List (String × α)) [] := by
  refine ⟨List.nodup_nil, fun _ => Iff.rfl, ?_⟩
  intro s hs
  cases hs

/-- A storage that is not there yet, without entries. -/
theorem add (h : Grouped pairs smap) {s : Source α} (hs : s.srcpath = [])
    (hnew : s.srcstorage ∉ smap.map Source.srcstorage) :
    ((addStorage s smap).map Source.srcstorage).Nodup
      ∧ (∀ st, st ∈ (addStorage s smap).map Source.srcstorage
          ↔ st = s.srcstorage ∨ st ∈ pairs.map Prod.fst)
      ∧ ∀ t ∈ addStorage s smap, t.srcpath
          = (pairs.filter fun p => p.1 = t.srcstorage).map Prod.snd := by
  have hperm := (addStorage_perm s smap).map Source.srcstorage
  refine ⟨?_, ?_, ?_⟩
  · exact hperm.nodup_iff.2 (List.nodup_cons.2 ⟨hnew, h.nodup⟩)
  · intro st
    rw [hperm.mem_iff, List.map_cons, List.mem_cons, h.named]
  · intro t ht
    rcases mem_addStorage ht with rfl | ht
    · have hnone : (pairs.filter fun p => p.1 = t.srcstorage) = [] := by
        rw [List.filter_eq_nil_iff]
        intro p hp heq
        refine hnew ((h.named _).2 (List.mem_map.2 ⟨p, hp, ?_⟩))
        exact of_decide_eq_true heq
      rw [hs, hnone]
      rfl
    · exact h.paths t ht

/-- An entry more, under a storage that is there. -/
theorem append {storage : String} {e : α}
    (hnodup : (smap.map Source.srcstorage).Nodup)
    (hnamed : ∀ st, st ∈ smap.map Source.srcstorage
      ↔ st = storage ∨ st ∈ pairs.map Prod.fst)
    (hpaths : ∀ s ∈ smap, s.srcpath
      = (pairs.filter fun p => p.1 = s.srcstorage).map Prod.snd) :
    Grouped (pairs ++ [(storage, e)]) (appendPath storage e smap) := by
  refine ⟨?_, ?_, ?_⟩
  · rw [appendPath_storages]
    exact hnodup
  · intro st
    rw [appendPath_storages, hnamed, List.map_append, List.mem_append,
      or_comm]
    simp
  · intro s hs
    have hkey : appendPath storage e smap
        = smap.map fun s => if s.srcstorage = storage
            then { s with srcpath := s.srcpath ++ [e] } else s :=
      Collection.updateOne_key hnodup
    rw [hkey] at hs
    obtain ⟨t, ht, rfl⟩ := List.mem_map.1 hs
    rw [List.filter_append, List.map_append]
    by_cases heq : t.srcstorage = storage
    · rw [if_pos heq]
      simp [hpaths t ht, heq]
    · rw [if_neg heq]
      have hne : ¬ storage = t.srcstorage := fun he => heq he.symm
      simp [hpaths t ht, hne]

end Grouped

namespace Gathered.Groups

variable {legible : Prop} {pairs : List (String × α)} {g g₁ : Gathered α}
  {dtn storage : String}

theorem empty : ({} : Gathered α).Groups legible [] := by
  refine ⟨.empty, ?_, ?_⟩
  · intro s hs
    cases hs
  · intro _ dtn node h
    cases h

theorem ofDtn_appendPath {smap : List (Source α)} {e : α}
    (h : ∀ s ∈ smap, s.OfDtn) : ∀ s ∈ appendPath storage e smap, s.OfDtn := by
  intro s hs
  rcases Collection.mem_updateOne hs with hs | ⟨t, ht, _, rfl⟩
  · exact h s hs
  · exact h t ht

/-- An entry more, once its storage is there. -/
theorem append (h : g.Groups legible pairs) (e : α)
    (hinit : initStorage srcsite storage dtn g = .ok g₁)
    (hdtn : '|' ∉ dtn.toList)
    (hstorage : ∃ store, storage = dtn ++ "|" ++ store) :
    ({ g₁ with smap := appendPath storage e g₁.smap }).Groups legible
      (pairs ++ [(storage, e)]) := by
  unfold initStorage at hinit
  split at hinit
  · rename_i hknown
    injection hinit with hinit
    subst hinit
    refine ⟨.append h.nodup ?_ h.paths, ofDtn_appendPath h.dtns, h.readable⟩
    intro st
    rw [h.named]
    constructor
    · exact .inr
    · intro hst
      rcases hst with rfl | hst
      · rw [← h.named]
        obtain ⟨s, hs, heq⟩ := List.any_eq_true.1 hknown
        exact List.mem_map.2 ⟨s, hs, of_decide_eq_true heq⟩
      · exact hst
  · rename_i hknown
    obtain ⟨ip, _, hinit⟩ := bind_eq_ok.1 hinit
    injection hinit with hinit
    subst hinit
    have hnew : storage ∉ g.smap.map Source.srcstorage := by
      intro hmem
      obtain ⟨s, hs, heq⟩ := List.mem_map.1 hmem
      exact hknown (List.any_eq_true.2 ⟨s, hs, decide_eq_true heq⟩)
    let s : Source α := ⟨srcsite, storage, dtn, ip, []⟩
    have hs : s.srcpath = [] := rfl
    obtain ⟨hnodup, hnamed, hpaths⟩ := h.toGrouped.add hs hnew
    refine ⟨.append hnodup hnamed hpaths, ofDtn_appendPath ?_, h.readable⟩
    intro t ht
    rcases mem_addStorage ht with rfl | ht
    · exact ⟨hdtn, hstorage⟩
    · exact h.dtns t ht

/-- With legible answers, a storage of a DTN that is known can be added. -/
theorem init (h : g.Groups legible pairs) (hlegible : legible)
    (hdtn : (Json.lookup dtn g.dtninfo).isSome = true)
    (srcsite storage : String) :
    ∃ g₁, initStorage srcsite storage dtn g = .ok g₁ := by
  unfold initStorage
  split
  · exact ⟨g, rfl⟩
  · obtain ⟨node, hnode⟩ := Option.isSome_iff_exists.1 hdtn
    obtain ⟨ip, hip⟩ := h.readable hlegible dtn node hnode
    refine ⟨_, bind_eq_ok.2 ⟨ip, ?_, rfl⟩⟩
    rw [hnode]
    exact hip

end Gathered.Groups

-- ======================================================== the outcomes

variable {pairs : List (String × α)} {g : Gathered α}

/-- The site has an address and its answers can be read. -/
def Legible (siteInfo : Json) (m : Mail) : Prop :=
  (∃ url, commandUrl siteInfo = .ok url) ∧ m.Readable

/-- A DTN is asked for once, and refused only by its site. -/
theorem dtnInfo_outcome {dtn : String} {legible : Prop}
    (hlegible : legible → Legible siteInfo m) (hg : g.Groups legible pairs) :
    tri (dtnInfo siteInfo dtn g.dtninfo)
      (fun info m' => (Json.lookup dtn info).isSome = true
        ∧ (legible → ∀ d node, Json.lookup d info = some node →
            ∃ ip, ctrlIp node = .ok ip)
        ∧ m'.outcomes = m.outcomes)
      (fun _ _ => m.Refuses) (fun _ => ¬ legible) m := by
  unfold dtnInfo
  split
  · rename_i hsome
    exact ⟨hsome, hg.readable, rfl⟩
  · unfold Inquiry.read Inquiry.post
    simp only [tri_bind, tri_perform, wp_ofExcept]
    refine ⟨?_, ?_⟩
    · intro url hurl
      change tri _ _ _ _ _
      split
      · rename_i hcode
        exact ⟨m.posts.length, hcode⟩
      · simp only [tri_bind, tri_perform, wp_ofExcept]
        refine ⟨?_, ?_⟩
        · intro node hnode
          refine ⟨?_, ?_, rfl⟩
          · rw [Json.lookup_assign, if_pos rfl]
            rfl
          · intro hc d node' hnode'
            obtain ⟨node₁, hnode₁, ip, hip⟩ :=
              ((hlegible hc).2 m.posts.length).dtn
            rw [hnode] at hnode₁
            injection hnode₁ with hnode₁
            rw [Json.lookup_assign] at hnode'
            split at hnode'
            · injection hnode' with hnode'
              exact ⟨ip, by rw [← hnode', hnode₁]; exact hip⟩
            · exact hg.readable hc d node' hnode'
        · intro e he hc
          obtain ⟨node, hnode, _⟩ := ((hlegible hc).2 m.posts.length).dtn
          rw [hnode] at he
          cases he
    · intro e he hc
      obtain ⟨url, hurl⟩ := (hlegible hc).1
      rw [hurl] at he
      cases he

/-- One source: it is grouped, or refused, or nothing can be made of its
path. -/
theorem gatherSource_outcome {origin : Origin α} {legible : Prop}
    (hlegible : legible → Legible siteInfo m) (hg : g.Groups legible pairs) :
    tri (gatherSource siteInfo srcsite (split origin.1 '|') origin.2 g)
      (fun g' m' => m'.outcomes = m.outcomes
        ∧ ∃ p, origin.Makes srcsite p ∧ g'.Groups legible (pairs ++ [p]))
      (fun _ _ => ¬ FromSite srcsite origin.1 ∨ m.Refuses)
      (fun _ => (∃ dtn store path,
        split origin.1 '|' = [srcsite, dtn, store, path]
          ∧ ¬ ∃ e, origin.2 path = .ok e) ∨ ¬ legible) m := by
  unfold gatherSource
  split
  · rename_i site dtn store path hsplit
    split
    · rename_i hsite
      refine .inl fun hfrom => hsite ?_
      obtain ⟨_, _, _, hfrom⟩ := fromSite_iff.1 hfrom
      rw [hsplit] at hfrom
      injection hfrom with hfrom _
      exact hfrom.symm
    · rename_i hsite
      obtain rfl : srcsite = site := of_not_not hsite
      rw [tri_bind]
      refine (dtnInfo_outcome hlegible hg).mono ?_ (fun _ _ h => .inr h)
        fun _ h => .inr h
      intro info m' hinfo
      obtain ⟨hdtn, hreadable, hout⟩ := hinfo
      have hg' : ({ g with dtninfo := info } : Gathered α).Groups legible
          pairs := ⟨hg.toGrouped, hg.dtns, hreadable⟩
      unfold Inquiry.read
      simp only [tri_bind, tri_perform, wp_ofExcept, tri_pure]
      refine ⟨?_, ?_⟩
      · intro g₁ hinit
        refine ⟨?_, ?_⟩
        · intro e hentry
          refine ⟨hout, (_, e), ⟨dtn, store, path, hsplit, rfl, hentry⟩,
            hg'.append e hinit ?_ ⟨store, rfl⟩⟩
          apply delim_not_mem (s := origin.1)
          rw [hsplit]
          exact List.mem_cons_of_mem _ (List.mem_cons_self ..)
        · intro _ herror
          refine .inl ⟨dtn, store, path, hsplit, ?_⟩
          intro h
          obtain ⟨e', he'⟩ := h
          rw [herror] at he'
          cases he'
      · intro _ herror
        refine .inr fun hc => ?_
        obtain ⟨g₁, hinit⟩ := hg'.init hc hdtn srcsite
          (dtn ++ "|" ++ store)
        rw [herror] at hinit
        cases hinit
  · rename_i hfields
    refine .inl fun hfrom => ?_
    obtain ⟨dtn, store, path, hfrom⟩ := fromSite_iff.1 hfrom
    exact hfields _ _ _ _ hfrom

/-- The loop: everything is grouped, or a source is refused after
something could be made of all before it, or not. -/
theorem gatherOrigins_outcome {origins : List (Origin α)} {legible : Prop}
    (hlegible : legible → Legible siteInfo m) (hg : g.Groups legible pairs) :
    tri (gatherOrigins siteInfo srcsite origins g)
      (fun g' m' => m'.outcomes = m.outcomes
        ∧ ∃ new, List.Forall₂ (Origin.Makes srcsite) origins new
          ∧ g'.Groups legible (pairs ++ new))
      (fun _ _ => (Usable srcsite origins
          ∧ ¬ ∀ origin ∈ origins, FromSite srcsite origin.1) ∨ m.Refuses)
      (fun _ => ¬ Usable srcsite origins ∨ ¬ legible) m := by
  induction origins generalizing g pairs m with
  | nil =>
      refine ⟨rfl, [], .nil, ?_⟩
      rw [List.append_nil]
      exact hg
  | cons origin rest ih =>
      unfold gatherOrigins
      rw [tri_bind]
      refine (gatherSource_outcome hlegible hg).mono ?_ ?_ ?_
      · intro g' m' h
        obtain ⟨hout, p, hmakes, hg'⟩ := h
        have hlegible' : legible → Legible siteInfo m' := by
          unfold Legible Mail.Readable
          rw [hout]
          exact hlegible
        refine (ih hlegible' hg').mono ?_ ?_ ?_
        · intro g'' m'' h
          obtain ⟨hout', new, hnew, hg''⟩ := h
          refine ⟨hout'.trans hout, p :: new, .cons hmakes hnew, ?_⟩
          rw [List.append_assoc] at hg''
          exact hg''
        · intro _ _ h
          unfold Mail.Refuses at h ⊢
          rw [hout] at h
          refine h.imp_left fun h => ⟨hmakes.usable.2 h.1, ?_⟩
          intro hall
          exact h.2 fun i hi => hall i (List.mem_cons_of_mem _ hi)
        · intro _ h
          exact h.imp_left fun h huse => h (hmakes.usable.1 huse)
      · intro _ _ h
        refine h.imp_left fun hnot => ⟨?_, fun hall =>
          hnot (hall origin (List.mem_cons_self ..))⟩
        intro dtn store path hsplit
        exact absurd (fromSite_iff.2 ⟨dtn, store, path, hsplit⟩) hnot
      · intro _ h
        refine h.imp_left fun h huse => ?_
        obtain ⟨dtn, store, path, hsplit, hnone⟩ := h
        exact hnone (huse dtn store path hsplit).1

end origins

-- ======================================================= dataset files

/-- A file of a dataset as it is submitted: where it is, where it goes,
its size, and what else the entry has. -/
structure DatasetFile where
  src : String
  dst : String
  size : UInt64
  more : List Json

namespace DatasetFile

def toJson (f : DatasetFile) : Json :=
  .arr (.str f.src :: .str f.dst :: .int f.size.toNat :: f.more)

def origin (f : DatasetFile) : Origin DatasetEntry :=
  (f.src, datasetEntry (split f.dst '|') (.int f.size.toNat))

/-- The storage the source names. -/
def storage? (f : DatasetFile) : Option String :=
  match split f.src '|' with
  | [_, dtn, store, _] => some (dtn ++ "|" ++ store)
  | _ => none

/-- The destination has a fourth field, and a path in it. -/
def HasDir (f : DatasetFile) : Prop :=
  ∃ dpath, (split f.dst '|')[3]? = some dpath ∧ dpath ≠ ""

/-- The files of a storage. -/
def ofStorage (files : List DatasetFile) (storage : String) :
    List DatasetFile :=
  files.filter fun f => f.storage? = some storage

/-- The sum of the sizes of the files of a storage. -/
def total (files : List DatasetFile) (storage : String) : Nat :=
  ((ofStorage files storage).map fun f => f.size.toNat).sum

end DatasetFile

section files

variable {siteInfo : Json} {srcsite : String} {m : Mail}

theorem gatherFiles_eq (files : List DatasetFile)
    (g : Gathered DatasetEntry) :
    gatherFiles siteInfo srcsite (files.map DatasetFile.toJson) g
      = gatherOrigins siteInfo srcsite (files.map DatasetFile.origin) g := by
  induction files generalizing g with
  | nil => rfl
  | cons f rest ih =>
      rw [List.map_cons, List.map_cons]
      unfold gatherFiles
      simp only [ih]
      rfl

theorem destinationDir_ok {dsts : List String} :
    (∃ dir, destinationDir dsts = .ok dir)
      ↔ ∃ dpath, dsts[3]? = some dpath ∧ dpath ≠ "" := by
  unfold destinationDir
  cases hdst : dsts[3]? with
  | none =>
      constructor
      · intro h
        obtain ⟨_, h⟩ := h
        cases h
      · intro h
        obtain ⟨_, h, _⟩ := h
        cases h
  | some dpath =>
      have hempty : dpath.toList.getLast? = none ↔ dpath = "" := by
        rw [List.getLast?_eq_none_iff, String.toList_eq_nil_iff]
      dsimp only
      cases hlast : dpath.toList.getLast? with
      | none =>
          rw [hempty] at hlast
          constructor
          · intro h
            obtain ⟨_, h⟩ := h
            cases h
          · intro h
            obtain ⟨_, h, hne⟩ := h
            injection h with h
            exact absurd (h ▸ hlast) hne
      | some c =>
          have hne : dpath ≠ "" := by
            intro he
            rw [hempty.2 he] at hlast
            cases hlast
          exact ⟨fun _ => ⟨dpath, rfl, hne⟩, fun _ => ⟨_, rfl⟩⟩

/-- Something can be made of a path if its file has a destination
directory. -/
theorem datasetEntry_ok {f : DatasetFile} {path : String} :
    (∃ e, f.origin.2 path = .ok e) ↔ f.HasDir := by
  unfold DatasetFile.HasDir
  rw [← destinationDir_ok]
  constructor
  · intro h
    obtain ⟨e, he⟩ := h
    obtain ⟨dir, hdir, _⟩ := bind_eq_ok.1 he
    exact ⟨dir, hdir⟩
  · intro h
    obtain ⟨dir, hdir⟩ := h
    exact ⟨_, bind_eq_ok.2 ⟨dir, hdir, rfl⟩⟩

/-- The files before the first one that is refused are to have a
destination directory. -/
theorem usable_iff {files : List DatasetFile} :
    Usable srcsite (files.map DatasetFile.origin)
      ↔ ∀ f ∈ files.takeWhile fun f => FromSite srcsite f.src,
          f.HasDir := by
  induction files with
  | nil =>
      constructor
      · intro _ f hf
        cases hf
      · exact fun _ => trivial
  | cons f rest ih =>
      by_cases hfrom : FromSite srcsite f.src
      · rw [List.takeWhile_cons_of_pos (by simpa using hfrom)]
        obtain ⟨dtn, store, path, hsplit⟩ := fromSite_iff.1 hfrom
        constructor
        · intro huse
          obtain ⟨hentry, hrest⟩ := huse dtn store path hsplit
          exact List.forall_mem_cons.2
            ⟨datasetEntry_ok.1 hentry, ih.1 hrest⟩
        · intro hall dtn' store' path' _
          obtain ⟨hdir, hrest⟩ := List.forall_mem_cons.1 hall
          exact ⟨datasetEntry_ok.2 hdir, ih.2 hrest⟩
      · rw [List.takeWhile_cons_of_neg (by simpa using hfrom)]
        constructor
        · intro _ g hg
          cases hg
        · intro _ dtn store path hsplit
          exact absurd (fromSite_iff.2 ⟨dtn, store, path, hsplit⟩) hfrom

/-- What is made of a file keeps its storage and its size. -/
theorem DatasetFile.made {f : DatasetFile} {p : String × DatasetEntry}
    (h : f.origin.Makes srcsite p) :
    f.storage? = some p.1 ∧ p.2.size = .int f.size.toNat := by
  obtain ⟨dtn, store, path, hsplit, hstorage, hentry⟩ := h
  have hsplit : split f.src '|' = [srcsite, dtn, store, path] := hsplit
  obtain ⟨dir, _, he⟩ := bind_eq_ok.1 hentry
  injection he with he
  refine ⟨?_, ?_⟩
  · unfold DatasetFile.storage?
    rw [hsplit, hstorage]
  · rw [← he]

/-- The entries of a storage are those of its files. -/
theorem made_of_storage {files : List DatasetFile}
    {pairs : List (String × DatasetEntry)}
    (h : List.Forall₂ (Origin.Makes srcsite) (files.map DatasetFile.origin)
      pairs) (storage : String) :
    List.Forall₂ (fun f e => f.origin.Makes srcsite (storage, e))
      (DatasetFile.ofStorage files storage)
      ((pairs.filter fun p => p.1 = storage).map Prod.snd) := by
  rw [List.forall₂_map_left_iff] at h
  unfold DatasetFile.ofStorage
  induction h with
  | nil => exact .nil
  | @cons f p files pairs hmade hrest ih =>
      have hkey := (DatasetFile.made hmade).1
      by_cases hst : p.1 = storage
      · rw [List.filter_cons_of_pos (by simp [hkey, hst]),
          List.filter_cons_of_pos (by simp [hst])]
        refine .cons ?_ ih
        rw [← hst]
        exact hmade
      · rw [List.filter_cons_of_neg (by simp [hkey, hst]),
          List.filter_cons_of_neg (by simp [hst])]
        exact ih

theorem asUInt64_nat {n : Nat} (h : n < 2 ^ 64) :
    (Json.int n).asUInt64 = .ok n := by
  have hlt : (0 : Int) ≤ n ∧ (n : Int) < 2 ^ 64 :=
    ⟨Int.natCast_nonneg n, by exact_mod_cast h⟩
  unfold Json.asUInt64
  simp only [hlt, and_self, if_true]
  rfl

/-- Their sizes add up to that of the storage. -/
theorem entrySizes_made {files : List DatasetFile} {storage : String}
    {entries : List DatasetEntry}
    (h : List.Forall₂ (fun f e => f.origin.Makes srcsite (storage, e)) files
      entries) :
    entrySizes entries
      = .ok ((files.map fun f => f.size.toNat).sum % 2 ^ 64) := by
  induction h with
  | nil => rfl
  | @cons f e files entries hmade hrest ih =>
      have hsize : e.size.asUInt64 = .ok f.size.toNat := by
        rw [(DatasetFile.made hmade).2]
        exact asUInt64_nat f.size.toNat_lt
      unfold entrySizes
      refine bind_eq_ok.2 ⟨_, hsize, bind_eq_ok.2 ⟨_, ih, ?_⟩⟩
      rw [List.map_cons, List.sum_cons]
      simp only [pure, Except.pure, Except.ok.injEq]
      omega

end files

-- ========================================================= the listings

section listings

variable {pr : Premises} {job siteInfo : Json} {user srcsite url : String}
  {m : Mail}

/-- A listing of entries that are made of these sources. -/
structure Lists {α : Type} (job siteInfo : Json) (srcsite : String)
    (origins : List (Origin α)) (l : Listed α) : Prop where
  siteInfo_eq : l.siteInfo = siteInfo
  time : durationOf job = .ok l.time
  dtns : ∀ s ∈ l.smap, s.OfDtn
  made : ∃ pairs, List.Forall₂ (Origin.Makes srcsite) origins pairs
    ∧ Grouped pairs l.smap

theorem Origin.Makes.fromSite {α : Type} {origin : Origin α}
    {p : String × α} (h : origin.Makes srcsite p) :
    FromSite srcsite origin.1 := by
  obtain ⟨dtn, store, path, hsplit, _⟩ := h
  exact fromSite_iff.2 ⟨dtn, store, path, hsplit⟩

theorem Lists.fromSite {α : Type} {origins : List (Origin α)}
    {l : Listed α} (h : Lists job siteInfo srcsite origins l) :
    ∀ origin ∈ origins, FromSite srcsite origin.1 := by
  obtain ⟨pairs, hmade, _⟩ := h.made
  intro origin horigin
  obtain ⟨p, _, hp⟩ := Collection.mem_right_of_forall₂ hmade horigin
  exact hp.fromSite

/-- The loop over the sources and the duration that is read after it. -/
theorem gathered_outcome {α : Type} {origins : List (Origin α)} :
    tri (do
        let g ← gatherOrigins siteInfo srcsite origins {}
        let time ← Inquiry.read (durationOf job)
        pure (⟨siteInfo, g.smap, time⟩ : Listed α))
      (fun l m' => m'.outcomes = m.outcomes
        ∧ Lists job siteInfo srcsite origins l)
      (fun _ _ => (Usable srcsite origins
          ∧ ¬ ∀ origin ∈ origins, FromSite srcsite origin.1) ∨ m.Refuses)
      (fun _ => ¬ Usable srcsite origins
        ∨ (∀ origin ∈ origins, FromSite srcsite origin.1)
          ∧ (¬ ∃ time, durationOf job = .ok time)
        ∨ ¬ Legible siteInfo m) m := by
  rw [tri_bind]
  refine (gatherOrigins_outcome id .empty).mono ?_ (fun _ _ h => h)
    fun _ h => h.imp_right .inr
  intro g m' h
  obtain ⟨hout, pairs, hmade, hg⟩ := h
  have hlists : ∀ time, durationOf job = .ok time →
      Lists job siteInfo srcsite origins ⟨siteInfo, g.smap, time⟩ :=
    fun time htime => ⟨rfl, htime, hg.dtns, pairs, hmade, hg.toGrouped⟩
  unfold Inquiry.read
  cases htime : durationOf job with
  | ok time =>
      rw [tri_bind, tri_read_ok rfl]
      exact ⟨hout, hlists time htime⟩
  | error e =>
      rw [tri_bind, tri_read_error rfl]
      refine .inr (.inl ⟨?_, ?_⟩)
      · intro origin horigin
        obtain ⟨p, _, hp⟩ := Collection.mem_right_of_forall₂ hmade horigin
        exact hp.fromSite
      · intro h
        obtain ⟨time, h⟩ := h
        cases h

/-- `parse_raw_job_src`, up to the storages. -/
theorem listSources_outcome {srcfile : String}
    (huser : oidOf job "user" = .ok user)
    (hsite : oidOf job "srcsite" = .ok srcsite)
    (hfile : textOf job "srcfile" = .ok srcfile)
    (hinfo : pr.getSiteInfo srcsite = .ok siteInfo)
    (hurl : commandUrl siteInfo = .ok url) (hm : m.Readable) :
    tri (listSources pr job)
      (fun l m' => m'.outcomes = m.outcomes
        ∧ Lists job siteInfo srcsite
          ((split srcfile ',').map fun src => (src, .ok)) l)
      (fun _ _ => (¬ ∀ src ∈ split srcfile ',', FromSite srcsite src)
        ∨ m.Refuses)
      (fun _ => (∀ src ∈ split srcfile ',', FromSite srcsite src)
        ∧ ¬ ∃ time, durationOf job = .ok time) m := by
  have huse : ∀ srcs : List String,
      Usable srcsite (srcs.map fun src => ((src, .ok) : Origin String)) := by
    intro srcs
    induction srcs with
    | nil => trivial
    | cons src rest ih => exact fun _ _ path _ => ⟨⟨path, rfl⟩, ih⟩
  have hall : (∀ origin ∈ (split srcfile ',').map fun src =>
        ((src, .ok) : Origin String), FromSite srcsite origin.1)
      ↔ ∀ src ∈ split srcfile ',', FromSite srcsite src :=
    List.forall_mem_map
  unfold listSources Inquiry.read
  rw [tri_bind, tri_read_ok huser, tri_bind, tri_read_ok hsite, tri_bind,
    tri_read_ok hfile, tri_bind, tri_read_ok hinfo, gatherSources_eq]
  refine gathered_outcome.mono (fun _ _ h => h) ?_ ?_
  · intro _ _ h
    rw [hall] at h
    exact h.imp_left And.right
  · intro _ h
    rw [hall] at h
    exact (h.resolve_left (not_not.2 (huse _))).resolve_right
      (not_not.2 ⟨⟨url, hurl⟩, hm⟩)

/-- A listing that returns, whatever was answered. -/
theorem listSources_made {srcfile : String}
    (hfile : textOf job "srcfile" = .ok srcfile) :
    tri (listSources pr job)
      (fun l _ => ∃ srcsite siteInfo, Lists job siteInfo srcsite
        ((split srcfile ',').map fun src => (src, .ok)) l)
      (fun _ _ => True) (fun _ => True) m := by
  unfold listSources Inquiry.read
  simp only [tri_bind, tri_perform, wp_ofExcept, implies_true, and_true]
  intro _ _ srcsite _ srcfile' hfile' siteInfo _
  rw [hfile] at hfile'
  injection hfile' with hfile'
  subst hfile'
  rw [gatherSources_eq]
  refine (gatherOrigins_outcome id .empty).mono ?_ (fun _ _ _ => trivial)
    fun _ _ => trivial
  intro g m' h time htime
  obtain ⟨_, pairs, hmade, hg⟩ := h
  exact ⟨srcsite, siteInfo, rfl, htime, hg.dtns, pairs, hmade,
    hg.toGrouped⟩

/-- `parse_raw_job_src_ds`, up to the storages. -/
theorem listFiles_outcome {files : List DatasetFile} {v : Json}
    (huser : oidOf job "user" = .ok user)
    (hsite : oidOf job "srcsite" = .ok srcsite)
    (hinfo : pr.getSiteInfo srcsite = .ok siteInfo)
    (hurl : commandUrl siteInfo = .ok url)
    (hfiles : job.get "files" = .ok v)
    (hitems : v.items = files.map DatasetFile.toJson) (hm : m.Readable) :
    tri (listFiles pr job)
      (fun l m' => m'.outcomes = m.outcomes
        ∧ Lists job siteInfo srcsite (files.map DatasetFile.origin) l)
      (fun _ _ => ((∀ f ∈ files.takeWhile fun f => FromSite srcsite f.src,
            f.HasDir)
          ∧ ¬ ∀ f ∈ files, FromSite srcsite f.src) ∨ m.Refuses)
      (fun _ => (¬ ∀ f ∈ files.takeWhile fun f => FromSite srcsite f.src,
            f.HasDir)
        ∨ (∀ f ∈ files, FromSite srcsite f.src)
          ∧ ¬ ∃ time, durationOf job = .ok time) m := by
  have hall : (∀ origin ∈ files.map DatasetFile.origin,
        FromSite srcsite origin.1)
      ↔ ∀ f ∈ files, FromSite srcsite f.src := List.forall_mem_map
  unfold listFiles Inquiry.read
  rw [tri_bind, tri_read_ok huser, tri_bind, tri_read_ok hsite, tri_bind,
    tri_read_ok hinfo, tri_bind, tri_read_ok hfiles, hitems, gatherFiles_eq,
    ← usable_iff, ← hall]
  refine gathered_outcome.mono (fun _ _ h => h) (fun _ _ h => h) ?_
  intro _ h
  exact h.imp_right fun h => h.resolve_right (not_not.2 ⟨⟨url, hurl⟩, hm⟩)

/-- The same of files. -/
theorem listFiles_made {files : List DatasetFile} {v : Json}
    (hfiles : job.get "files" = .ok v)
    (hitems : v.items = files.map DatasetFile.toJson) :
    tri (listFiles pr job)
      (fun l _ => ∃ srcsite siteInfo,
        Lists job siteInfo srcsite (files.map DatasetFile.origin) l)
      (fun _ _ => True) (fun _ => True) m := by
  unfold listFiles Inquiry.read
  simp only [tri_bind, tri_perform, wp_ofExcept, implies_true, and_true]
  intro _ _ srcsite _ siteInfo _ v' hv'
  rw [hfiles] at hv'
  injection hv' with hv'
  subst hv'
  rw [hitems, gatherFiles_eq]
  refine (gatherOrigins_outcome id .empty).mono ?_ (fun _ _ _ => trivial)
    fun _ _ => trivial
  intro g m' h time htime
  obtain ⟨_, pairs, hmade, hg⟩ := h
  exact ⟨srcsite, siteInfo, rfl, htime, hg.dtns, pairs, hmade,
    hg.toGrouped⟩

end listings

-- ========================================================== the sources

/-- A source with these fields, whatever its site. -/
def Names (src dtn store path : String) : Prop :=
  ∃ site, split src '|' = [site, dtn, store, path]

/-- The paths of a storage are those of the sources that name it. -/
def Source.PathsOf (s : Source String) (srcs : List String)
    (store : String) : Prop :=
  ∀ path, path ∈ s.srcpath ↔ ∃ src ∈ srcs, Names src s.srcdtn store path

/-- The storages are the ones that the sources name. -/
structure Sourced (srcs : List String) (smap : List (Source String)) :
    Prop where
  of_storage : ∀ s ∈ smap, ∃ store, s.PathsOf srcs store ∧ s.srcpath ≠ []
  of_source : ∀ src ∈ srcs, ∃ s ∈ smap, ∃ store path,
    Names src s.srcdtn store path ∧ s.PathsOf srcs store

/-- The name of a storage has one DTN in it. -/
theorem storage_injective {dtn dtn' store store' : String}
    (hdtn : '|' ∉ dtn.toList) (hdtn' : '|' ∉ dtn'.toList)
    (h : dtn ++ "|" ++ store = dtn' ++ "|" ++ store') :
    dtn = dtn' ∧ store = store' := by
  have hlist : dtn.toList ++ '|' :: store.toList
      = dtn'.toList ++ '|' :: store'.toList := by
    have hchars := congrArg String.toList h
    simp only [String.toList_append, List.append_assoc] at hchars
    exact hchars
  have hfirst := congrArg (List.splitOn '|') hlist
  rw [List.splitOn_append_cons_self_of_not_mem hdtn,
    List.splitOn_append_cons_self_of_not_mem hdtn'] at hfirst
  injection hfirst with hfirst _
  rw [hfirst] at hlist
  injection List.append_cancel_left hlist with _ hstore
  exact ⟨String.toList_inj.1 hfirst, String.toList_inj.1 hstore⟩

theorem Names.dtn_not_mem {src dtn store path : String}
    (h : Names src dtn store path) : '|' ∉ dtn.toList := by
  obtain ⟨site, hsplit⟩ := h
  apply delim_not_mem (s := src)
  rw [hsplit]
  exact List.mem_cons_of_mem _ (List.mem_cons_self ..)

theorem Lists.sourced {job siteInfo : Json} {srcsite : String}
    {srcs : List String} {l : Listed String}
    (h : Lists job siteInfo srcsite (srcs.map fun src => (src, .ok)) l) :
    Sourced srcs l.smap := by
  obtain ⟨pairs, hmade, hgrouped⟩ := h.made
  rw [List.forall₂_map_left_iff] at hmade
  have hpaths : ∀ s ∈ l.smap, ∀ store,
      s.srcstorage = s.srcdtn ++ "|" ++ store → s.PathsOf srcs store := by
    intro s hs store hstore path
    rw [hgrouped.paths s hs, List.mem_map]
    constructor
    · intro hp
      obtain ⟨p, hp, rfl⟩ := hp
      obtain ⟨hp, hkey⟩ := List.mem_filter.1 hp
      obtain ⟨src, hsrc, dtn, store', path, hsplit, hname, hentry⟩ :=
        Collection.mem_left_of_forall₂ hmade hp
      injection hentry with hentry
      have hnames : Names src dtn store' p.2 := ⟨srcsite, hentry ▸ hsplit⟩
      rw [of_decide_eq_true hkey, hstore] at hname
      obtain ⟨rfl, rfl⟩ := storage_injective (h.dtns s hs).1
        hnames.dtn_not_mem hname
      exact ⟨src, hsrc, hnames⟩
    · intro hsrc
      obtain ⟨src, hsrc, site, hsplit⟩ := hsrc
      obtain ⟨p, hp, dtn, store', path', hsplit', hname, hentry⟩ :=
        Collection.mem_right_of_forall₂ hmade hsrc
      have hsplit' : split src '|' = [srcsite, dtn, store', path'] := hsplit'
      rw [hsplit] at hsplit'
      obtain ⟨_, rfl, rfl, rfl, _⟩ := hsplit'
      injection hentry with hentry
      refine ⟨p, List.mem_filter.2 ⟨hp, decide_eq_true ?_⟩, hentry.symm⟩
      rw [hname, hstore]
  refine ⟨?_, ?_⟩
  · intro s hs
    obtain ⟨_, store, hstore⟩ := h.dtns s hs
    refine ⟨store, hpaths s hs store hstore, ?_⟩
    obtain ⟨p, hp, hkey⟩ := List.mem_map.1
      ((hgrouped.named s.srcstorage).1 (List.mem_map_of_mem hs))
    rw [hgrouped.paths s hs]
    apply List.ne_nil_of_mem
    exact List.mem_map_of_mem
      (List.mem_filter.2 ⟨hp, decide_eq_true hkey⟩)
  · intro src hsrc
    obtain ⟨p, hp, dtn, store, path, hsplit, hname, _⟩ :=
      Collection.mem_right_of_forall₂ hmade hsrc
    have hnames : Names src dtn store path := ⟨srcsite, hsplit⟩
    obtain ⟨s, hs, hkey⟩ := List.mem_map.1
      ((hgrouped.named p.1).2 (List.mem_map_of_mem hp))
    obtain ⟨hbar, store', hstore⟩ := h.dtns s hs
    rw [hstore, hname] at hkey
    obtain ⟨hdtn, rfl⟩ := storage_injective hbar hnames.dtn_not_mem hkey
    exact ⟨s, hs, store', path, hdtn ▸ hnames, hpaths s hs store' hstore⟩

end BigDataExpress

/-
Conservation of a dataset.

The files of a dataset are regrouped by their storages, each storage
becomes one block, and a file becomes two entries of its block: its
folder, and the file itself. `Conserves` says of one storage that its
entries, its counts and its sizes are those of the files that name it,
and `DatasetConserved` that the storages are the ones that are named.
Nothing is lost, duplicated or misplaced (`dataset_conserved`).

The size of a job is a sum of doubles, which is exact as long as double
addition is (`AddsExactly`).
-/
import BigDataExpress.Proofs.Listing

namespace BigDataExpress

open Stateful

-- ================================================== what is to be copied

/-- A path is a folder and a name: the part after the last slash of
either kind. -/
def Cut (path folder name : String) : Prop :=
  path = folder ++ name ∧ (∀ c ∈ name.toList, isSlash c = false)
    ∧ (folder = "" ∨ ∃ c, folder.toList.getLast? = some c ∧ isSlash c)

/-- A directory is a path, with a slash appended unless it ends with
one. -/
def Slashed (path dir : String) : Prop :=
  if path.toList.getLast? = some '/' then dir = path else dir = path ++ "/"

/-- The two entries of a file: its folder is made at the destination, and
it is copied from its full source path into the destination directory. -/
def Copied (f : DatasetFile) (folder copy : Json) : Prop :=
  ∃ path dpath dir base name, (split f.src '|')[3]? = some path
    ∧ (split f.dst '|')[3]? = some dpath
    ∧ Slashed dpath dir ∧ Cut path base name
    ∧ folder = .arr [.str base, .str dir, .int 0, .int 0]
    ∧ copy = .arr [.str path, .str (dir ++ name), .int f.size.toNat, .int 0]

theorem cutPath_cut (path : String) :
    Cut path (cutPath path).1 (cutPath path).2 := by
  have happend : path.toList = (cutPath path).1.toList
      ++ (cutPath path).2.toList := by
    unfold cutPath
    rw [String.toList_ofList, String.toList_ofList, ← List.reverse_append,
      List.takeWhile_append_dropWhile, List.reverse_reverse]
  refine ⟨?_, ?_, ?_⟩
  · rw [← String.toList_inj, String.toList_append]
    exact happend
  · intro c hc
    unfold cutPath at hc
    rw [String.toList_ofList, List.mem_reverse] at hc
    simpa using List.mem_takeWhile_imp hc
  · unfold cutPath
    dsimp only
    cases hdrop : path.toList.reverse.dropWhile fun c => !isSlash c with
    | nil => exact .inl rfl
    | cons c rest =>
        refine .inr ⟨c, ?_, ?_⟩
        · rw [String.toList_ofList, List.getLast?_reverse]
          rfl
        · have hhead := List.head?_dropWhile_not (fun c => !isSlash c)
            path.toList.reverse
          rw [hdrop] at hhead
          simpa using hhead

theorem destinationDir_slashed {dsts : List String} {dir : String}
    (h : destinationDir dsts = .ok dir) :
    ∃ dpath, dsts[3]? = some dpath ∧ Slashed dpath dir := by
  unfold destinationDir at h
  split at h
  · cases h
  · rename_i dpath hdpath
    split at h
    · cases h
    · rename_i c hlast
      injection h with h
      refine ⟨dpath, hdpath, ?_⟩
      unfold Slashed
      rw [hlast]
      by_cases hc : c = '/'
      · rw [if_pos (by rw [hc])]
        rw [if_neg (not_not.2 hc)] at h
        exact h.symm
      · rw [if_neg (by simpa using hc)]
        rw [if_pos hc] at h
        exact h.symm

/-- What is made of a file are its two entries. -/
theorem DatasetFile.copied {srcsite storage : String} {f : DatasetFile}
    {e : DatasetEntry} (h : f.origin.Makes srcsite (storage, e)) :
    ∃ folder copy, datasetFiles e = [folder, copy] ∧ Copied f folder copy := by
  obtain ⟨dtn, store, path, hsplit, _, hentry⟩ := h
  have hsplit : split f.src '|' = [srcsite, dtn, store, path] := hsplit
  obtain ⟨dir, hdir, he⟩ := bind_eq_ok.1 hentry
  obtain ⟨dpath, hdpath, hslashed⟩ := destinationDir_slashed hdir
  injection he with he
  subst he
  have hcut := cutPath_cut path
  refine ⟨_, _, rfl, path, dpath, dir, _, _, ?_, hdpath, hslashed, hcut,
    rfl, ?_⟩
  · rw [hsplit]
    rfl
  · dsimp only
    rw [← hcut.1]

-- ========================================================== the blocks

/-- The block and the counts of a part are those of its entries. -/
structure DatasetPart (time : Int) (p : Part DatasetEntry) (d : Document) :
    Prop where
  size : entrySizes p.srcpath = .ok p.size
  fields : d.fields = datasetBlock p.srcpath p.size
  blocks : p.blocks = [blockMeta d.id (.int p.size)
    (p.srcpath.flatMap datasetFiles).length]
  files : p.files = p.srcpath.length
  rate : baseRate p.size time = .ok p.baserate

theorem datasetFiles_length (entries : List DatasetEntry) :
    (entries.flatMap datasetFiles).length = 2 * entries.length := by
  induction entries with
  | nil => rfl
  | cons e rest ih =>
      rw [List.flatMap_cons, List.length_append, ih, List.length_cons]
      have htwo : (datasetFiles e).length = 2 := rfl
      omega

theorem baseRate_error {size : Nat} {time : Int} {e : String}
    (h : baseRate size time = .error e) : time.tdiv 1000 = 0 := by
  unfold baseRate at h
  by_contra hne
  rw [if_neg hne] at h
  cases h

theorem baseRate_ok {size rate : Nat} {time : Int}
    (h : baseRate size time = .ok rate) :
    time.tdiv 1000 ≠ 0
      ∧ rate = size / (time.tdiv 1000 % 2 ^ 64).toNat := by
  unfold baseRate at h
  by_cases hzero : time.tdiv 1000 = 0
  · rw [if_pos hzero] at h
    cases h
  · rw [if_neg hzero] at h
    injection h with h
    exact ⟨hzero, h.symm⟩

/-- A storage gets one block, unless a size cannot be read or there is
nothing to divide by. -/
theorem datasetStorage_outcome (time : Int) (src : Source DatasetEntry)
    (s : Intake) :
    wp (datasetStorage time src)
      (fun p t => p.toSource = src
        ∧ ∃ d, DatasetPart time p d ∧ t.blocks = s.blocks ++ [d])
      (fun _ => (¬ ∃ n, entrySizes src.srcpath = .ok n)
        ∨ time.tdiv 1000 = 0) s := by
  unfold datasetStorage Boot.read
  simp only [wp_bind, wp_ofExcept, wp_insertBlock]
  refine ⟨?_, ?_⟩
  · intro size hsize
    refine ⟨?_, fun e he => .inr (baseRate_error he)⟩
    intro rate hrate
    refine ⟨rfl, ⟨s.oids s.inserts.length, datasetBlock src.srcpath size⟩,
      ⟨hsize, rfl, rfl, ?_, hrate⟩, rfl⟩
    dsimp only
    rw [datasetFiles_length]
    omega
  · intro e he
    refine .inl fun h => ?_
    obtain ⟨n, hn⟩ := h
    rw [he] at hn
    cases hn

/-- The blocks of all storages. -/
theorem datasetStorages_outcome (time : Int)
    (smap : List (Source DatasetEntry)) (s : Intake) :
    wp (datasetStorages time smap)
      (fun parts t => parts.map Part.toSource = smap
        ∧ ∃ docs, List.Forall₂ (DatasetPart time) parts docs
          ∧ t.blocks = s.blocks ++ docs)
      (fun _ => (∃ src ∈ smap, ¬ ∃ n, entrySizes src.srcpath = .ok n)
        ∨ smap ≠ [] ∧ time.tdiv 1000 = 0) s := by
  induction smap generalizing s with
  | nil => exact ⟨rfl, [], .nil, (List.append_nil _).symm⟩
  | cons src rest ih =>
      unfold datasetStorages
      rw [wp_bind]
      refine (datasetStorage_outcome time src s).mono ?_ ?_
      · intro p t h
        obtain ⟨hp, d, hd, hblock⟩ := h
        rw [wp_bind]
        refine (ih t).mono ?_ ?_
        · intro parts t' h
          obtain ⟨hparts, docs, hdocs, hblocks⟩ := h
          refine ⟨?_, d :: docs, .cons hd hdocs, ?_⟩
          · rw [List.map_cons, hp, hparts]
          · rw [hblocks, hblock, List.append_assoc]
            rfl
        · intro _ h
          refine h.imp ?_ fun h => ⟨List.cons_ne_nil _ _, h.2⟩
          intro h
          obtain ⟨src', hmem, h⟩ := h
          exact ⟨src', List.mem_cons_of_mem _ hmem, h⟩
      · intro _ h
        exact h.imp (fun h => ⟨src, List.mem_cons_self .., h⟩)
          fun h => ⟨List.cons_ne_nil _ _, h⟩

/-- The end of the parsing: the parts are in the job, with the sum of
their sizes. -/
theorem withSources_outcome {α : Type} {render : α → Json} {job : Json}
    {parts : List (Part α)} (s : Intake) :
    tri (withSources render job parts)
      (fun job' t => job'.Has "src" (.arr (parts.map (Part.toJson render)))
        ∧ job'.Has "size" (.real (totalSize parts))
        ∧ t.blocks = s.blocks)
      (fun _ _ => False)
      (fun _ => ¬ ∃ o : ObjectId, job.IsOf o) s := by
  unfold withSources Parse.read Boot.updateRawjobSize
    Boot.updateRawjobField Boot.read
  simp only [tri_bind, tri_perform, wp_ofExcept, tri_pure, wp_bind,
    wp_modify]
  -- an object with an id keeps it, and takes every assignment
  have hkeeps : ∀ {o : ObjectId} {j : Json}, job.IsOf o →
      job.set "src" (.arr (parts.map (Part.toJson render))) = .ok j →
      ((j.removeMember "srcfile").removeMember "srcsite").IsOf o :=
    fun ho hj => ((Json.Has.set ho (by decide) hj).removeMember
      (by decide)).removeMember (by decide)
  refine ⟨?_, ?_⟩
  · intro j₁ h₁
    refine ⟨?_, ?_⟩
    · intro j₂ h₂
      have hsrc := (((Json.has_of_set h₁).removeMember (k := "srcfile")
        (by decide)).removeMember (by decide)).set (by decide) h₂
      refine ⟨?_, ?_⟩
      · intro rid hrid
        refine ⟨fun _ _ => ⟨hsrc, Json.has_of_set h₂, trivial⟩, ?_⟩
        intro e he hid
        obtain ⟨o, ho⟩ := hid
        have hoid := Json.IsOf.oidOf
          (Json.Has.set (hkeeps ho h₁) (by decide) h₂)
        rw [hrid] at hoid
        injection hoid with hoid
        rw [hoid, ObjectId.parse_text] at he
        cases he
      · intro e he hid
        obtain ⟨o, ho⟩ := hid
        rw [Json.IsOf.oidOf (Json.Has.set (hkeeps ho h₁) (by decide) h₂)]
          at he
        cases he
    · intro e he hid
      obtain ⟨o, ho⟩ := hid
      obtain ⟨j₂, h₂⟩ := (hkeeps ho h₁).set_ok "size"
        (.real (totalSize parts))
      rw [h₂] at he
      cases he
  · intro e he hid
    obtain ⟨o, ho⟩ := hid
    obtain ⟨j₁, h₁⟩ := Json.Has.set_ok ho "src"
      (.arr (parts.map (Part.toJson render)))
    rw [h₁] at he
    cases he

-- ========================================================= conservation

/-- A storage of a parsed job, and the block that was stored for it. -/
structure StorageJob where
  storage : String
  src : Json
  block : Document

/-- What is kept for a storage is what the files are that name it: their
entries, their number, and the sum of their sizes. -/
structure StorageJob.Conserves (files : List DatasetFile)
    (k : StorageJob) : Prop where
  storage : k.src.get "srcstorage" = .ok (.str k.storage)
  count : k.src.get "files"
    = .ok (.int (DatasetFile.ofStorage files k.storage).length)
  size : k.src.get "size" = .ok (.int (DatasetFile.total files k.storage))
  block : ∃ b, k.src.get "blocks" = .ok (.arr [b])
    ∧ b.get "id" = .ok (.str k.block.id.text)
    ∧ b.get "size" = .ok (.int (DatasetFile.total files k.storage))
  block_size : Json.lookup "size" k.block.fields
    = some (.int (DatasetFile.total files k.storage))
  entries : ∃ moves : List (Json × Json),
    List.Forall₂ (fun f move => Copied f move.1 move.2)
      (DatasetFile.ofStorage files k.storage) moves
    ∧ Json.lookup "files" k.block.fields
      = some (.arr (moves.flatMap fun move => [move.1, move.2]))

/-- The sum of sizes in doubles. -/
def sumDoubles (sizes : List Nat) : Float :=
  sizes.foldl (fun t n => t + Float.ofNat n) 0

/-- The addition of doubles is exact below 2^53. -/
def AddsExactly : Prop :=
  ∀ m n : Nat, m + n < 2 ^ 53 →
    Float.ofNat m + Float.ofNat n = Float.ofNat (m + n)

/-- From `s` to `t` a dataset has become the parsed job: its storages are
those that the files name, each once, and each keeps what its files are;
the size of the job is the sum over them. -/
def DatasetConserved (files : List DatasetFile) (s t : Intake)
    (job : Json) : Prop :=
  ∃ ks : List StorageJob, (ks.map StorageJob.storage).Nodup
    ∧ (∀ k ∈ ks, ∃ f ∈ files, f.storage? = some k.storage)
    ∧ (∀ f ∈ files, ∃ k ∈ ks, f.storage? = some k.storage)
    ∧ (∀ k ∈ ks, k.Conserves files)
    ∧ job.get "src" = .ok (.arr (ks.map StorageJob.src))
    ∧ t.blocks = s.blocks ++ ks.map StorageJob.block
    ∧ ∃ size, job.get "size" = .ok (.real size)
      ∧ size = sumDoubles (ks.map fun k => DatasetFile.total files k.storage)
      ∧ (AddsExactly → size
          = Float.ofNat (ks.map fun k =>
              DatasetFile.total files k.storage).sum)

/-- Below 2^53 sums of doubles are sums. -/
theorem sumDoubles_eq (hadd : AddsExactly) {sizes : List Nat}
    (h : sizes.sum < 2 ^ 53) :
    sumDoubles sizes = Float.ofNat sizes.sum := by
  have hfold : ∀ (sizes : List Nat) (m : Nat), m + sizes.sum < 2 ^ 53 →
      sizes.foldl (fun t n => t + Float.ofNat n) (Float.ofNat m)
        = Float.ofNat (m + sizes.sum) := by
    intro sizes
    induction sizes with
    | nil => intro m _; rfl
    | cons n rest ih =>
        intro m hm
        rw [List.sum_cons] at hm
        rw [List.foldl_cons, hadd m n (by omega), ih (m + n) (by omega),
          List.sum_cons, Nat.add_assoc]
  have hzero := hfold sizes 0 (by omega)
  rw [Nat.zero_add] at hzero
  exact hzero

/-- The entries of a part are those of the files of its storage. -/
def PartOf (srcsite : String) (files : List DatasetFile)
    (p : Part DatasetEntry) : Prop :=
  List.Forall₂ (fun f e => f.origin.Makes srcsite (p.srcstorage, e))
    (DatasetFile.ofStorage files p.srcstorage) p.srcpath

/-- The entries of a block, file by file. -/
theorem copied_all {srcsite storage : String} {files : List DatasetFile}
    {entries : List DatasetEntry}
    (h : List.Forall₂ (fun f e => f.origin.Makes srcsite (storage, e)) files
      entries) :
    ∃ moves : List (Json × Json),
      List.Forall₂ (fun f move => Copied f move.1 move.2) files moves
      ∧ entries.flatMap datasetFiles
        = moves.flatMap fun move => [move.1, move.2] := by
  induction h with
  | nil => exact ⟨[], .nil, rfl⟩
  | @cons f e files entries hmade hrest ih =>
      obtain ⟨moves, hmoves, heq⟩ := ih
      obtain ⟨folder, copy, hfiles, hcopied⟩ := DatasetFile.copied hmade
      refine ⟨(folder, copy) :: moves, .cons hcopied hmoves, ?_⟩
      rw [List.flatMap_cons, List.flatMap_cons, hfiles, heq]

/-- A part conserves what the files of its storage are. -/
theorem PartOf.conserves {srcsite : String} {files : List DatasetFile}
    {time : Int} {p : Part DatasetEntry} {d : Document}
    (h : PartOf srcsite files p) (hd : DatasetPart time p d)
    (hlt : DatasetFile.total files p.srcstorage < 2 ^ 64) :
    (⟨p.srcstorage, p.toJson DatasetEntry.toJson, d⟩
      : StorageJob).Conserves files := by
  have hsize : p.size = DatasetFile.total files p.srcstorage := by
    have hread := entrySizes_made h
    rw [hd.size] at hread
    injection hread with hread
    rw [hread]
    exact Nat.mod_eq_of_lt hlt
  have hcount : p.files
      = (DatasetFile.ofStorage files p.srcstorage).length := by
    rw [hd.files]
    exact h.length_eq.symm
  obtain ⟨moves, hmoves, hflat⟩ := copied_all h
  constructor
  · simp [Part.toJson_eq, partFields, Json.assignAll, Json.lookup_assign]
  · simp [Part.toJson_eq, partFields, Json.assignAll, Json.lookup_assign,
      hcount]
  · simp [Part.toJson_eq, partFields, Json.assignAll, Json.lookup_assign,
      hsize]
  · refine ⟨blockMeta d.id (.int p.size)
      (p.srcpath.flatMap datasetFiles).length, ?_, ?_, ?_⟩
    · simp [Part.toJson_eq, partFields, Json.assignAll, Json.lookup_assign,
        hd.blocks]
    · simp [blockMeta, Json.object_eq, Json.assignAll, Json.lookup_assign]
    · simp [blockMeta, Json.object_eq, Json.assignAll, Json.lookup_assign,
        hsize]
  · simp [hd.fields, datasetBlock, Json.lookup_assign, hsize]
  · refine ⟨moves, hmoves, ?_⟩
    simp [hd.fields, datasetBlock, Json.lookup_assign, hflat]

/-- The storages of the parts with their blocks. -/
theorem conserved_all {srcsite : String} {files : List DatasetFile}
    {time : Int} {parts : List (Part DatasetEntry)} {docs : List Document}
    (h : List.Forall₂ (DatasetPart time) parts docs)
    (hparts : ∀ p ∈ parts, PartOf srcsite files p)
    (hlt : ∀ storage, DatasetFile.total files storage < 2 ^ 64) :
    ∃ ks : List StorageJob,
      ks.map StorageJob.storage = (parts.map fun p => p.srcstorage)
      ∧ ks.map StorageJob.src = parts.map (Part.toJson DatasetEntry.toJson)
      ∧ ks.map StorageJob.block = docs
      ∧ (ks.map fun k => DatasetFile.total files k.storage)
        = parts.map Part.size
      ∧ ∀ k ∈ ks, k.Conserves files := by
  induction h with
  | nil => exact ⟨[], rfl, rfl, rfl, rfl, fun k hk => by cases hk⟩
  | @cons p d parts docs hd hrest ih =>
      obtain ⟨hp, hparts⟩ := List.forall_mem_cons.1 hparts
      obtain ⟨ks, hst, hsrc, hblock, hsize, hall⟩ := ih hparts
      have hk := hp.conserves hd (hlt _)
      refine ⟨⟨p.srcstorage, p.toJson DatasetEntry.toJson, d⟩ :: ks, ?_, ?_,
        ?_, ?_, List.forall_mem_cons.2 ⟨hk, hall⟩⟩
      · rw [List.map_cons, hst]
        rfl
      · rw [List.map_cons, hsrc]
        rfl
      · rw [List.map_cons, hblock]
      · have hread := entrySizes_made hp
        rw [hd.size] at hread
        injection hread with hread
        rw [List.map_cons, hsize, List.map_cons, hread]
        exact congrArg (· :: _) (Nat.mod_eq_of_lt (hlt _)).symm

/-- The sizes of the storages are those of all files. -/
theorem DatasetFile.sum_total {files : List DatasetFile}
    {storages : List String} (hnodup : storages.Nodup)
    (h : ∀ f ∈ files, ∃ st ∈ storages, f.storage? = some st) :
    (storages.map (total files)).sum
      = (files.map fun f => f.size.toNat).sum :=
  Collection.sum_fibres hnodup h

theorem DatasetFile.total_le (files : List DatasetFile) (storage : String) :
    total files storage ≤ (files.map fun f => f.size.toNat).sum := by
  unfold total ofStorage
  induction files with
  | nil => exact Nat.le_refl 0
  | cons f rest ih =>
      rw [List.filter_cons]
      split
      · simp only [List.map_cons, List.sum_cons]
        omega
      · simp only [List.map_cons, List.sum_cons]
        omega

/-- The parts of a listing are the storages that its files name, with
the entries of these. -/
theorem Lists.parts {job siteInfo : Json} {srcsite : String}
    {files : List DatasetFile} {l : Listed DatasetEntry}
    {parts : List (Part DatasetEntry)}
    (h : Lists job siteInfo srcsite (files.map DatasetFile.origin) l)
    (hparts : parts.map Part.toSource = l.smap) :
    (parts.map fun p => p.srcstorage).Nodup
      ∧ (∀ p ∈ parts, PartOf srcsite files p)
      ∧ ∀ st, st ∈ (parts.map fun p => p.srcstorage)
          ↔ ∃ f ∈ files, f.storage? = some st := by
  obtain ⟨pairs, hmade, hgrouped⟩ := h.made
  have hkeys : (parts.map fun p => p.srcstorage)
      = l.smap.map Source.srcstorage := by
    rw [← hparts, List.map_map]
    rfl
  refine ⟨?_, ?_, ?_⟩
  · rw [hkeys]
    exact hgrouped.nodup
  · intro p hp
    have hmem : p.toSource ∈ l.smap :=
      hparts ▸ List.mem_map_of_mem hp
    unfold PartOf
    rw [hgrouped.paths _ hmem]
    exact made_of_storage hmade _
  · intro st
    rw [List.forall₂_map_left_iff] at hmade
    rw [hkeys, hgrouped.named, List.mem_map]
    constructor
    · intro h
      obtain ⟨p, hp, rfl⟩ := h
      obtain ⟨f, hf, hfp⟩ := Collection.mem_left_of_forall₂ hmade hp
      exact ⟨f, hf, (DatasetFile.made hfp).1⟩
    · intro h
      obtain ⟨f, hf, hst⟩ := h
      obtain ⟨p, hp, hfp⟩ := Collection.mem_right_of_forall₂ hmade hf
      have hfst := (DatasetFile.made hfp).1
      rw [hst] at hfst
      injection hfst with hfst
      exact ⟨p, hp, hfst.symm⟩

/-- Each file of a listing is of one of its parts. -/
theorem Lists.placed {job siteInfo : Json} {srcsite : String}
    {files : List DatasetFile} {l : Listed DatasetEntry}
    {parts : List (Part DatasetEntry)}
    (h : Lists job siteInfo srcsite (files.map DatasetFile.origin) l)
    (hparts : parts.map Part.toSource = l.smap) :
    ∀ f ∈ files, ∃ p ∈ parts, f.storage? = some p.srcstorage := by
  intro f hf
  obtain ⟨pairs, hmade, _⟩ := h.made
  rw [List.forall₂_map_left_iff] at hmade
  obtain ⟨p, _, hfp⟩ := Collection.mem_right_of_forall₂ hmade hf
  have hfst := (DatasetFile.made hfp).1
  obtain ⟨q, hq, hqst⟩ := List.mem_map.1
    (((h.parts hparts).2.2 p.1).2 ⟨f, hf, hfst⟩)
  exact ⟨q, hq, by rw [hfst, hqst]⟩

/-- A dataset that is parsed is conserved. -/
theorem dataset_conserved {pr : Premises} {job job' : Json}
    {files : List DatasetFile} {s t : Intake}
    (hfiles : job.get "files" = .ok (.arr (files.map DatasetFile.toJson)))
    (hsum : (files.map fun f => f.size.toNat).sum < 2 ^ 53)
    (hrun : (parseRawJobSrcDs pr job).run s = .ok (.ok job') t) :
    DatasetConserved files s t job' := by
  suffices hall : tri (parseRawJobSrcDs pr job)
      (fun job' t => DatasetConserved files s t job') (fun _ _ => True)
      (fun _ => True) s from hall.ok hrun
  unfold parseRawJobSrcDs Parse.ask
  rw [tri_bind, tri_zoom]
  refine (listFiles_made hfiles rfl).mono ?_ (fun _ _ _ => trivial)
    fun _ _ => trivial
  intro l m h
  obtain ⟨srcsite, siteInfo, hlists⟩ := h
  rw [tri_bind, tri_perform]
  refine (datasetStorages_outcome l.time l.smap _).mono ?_
    fun _ _ => trivial
  intro parts t₁ h
  obtain ⟨hparts, docs, hdocs, hblocks⟩ := h
  refine (withSources_outcome t₁).mono ?_ (fun _ _ h => h.elim)
    fun _ _ => trivial
  intro job' t h
  obtain ⟨hsrc, hsize, hsame⟩ := h
  obtain ⟨hnodup, hof, hnamed⟩ := hlists.parts hparts
  obtain ⟨ks, hst, hsrcs, hdocs', hsizes, hall⟩ := conserved_all hdocs hof
    fun st => (DatasetFile.total_le files st).trans_lt (by omega)
  rw [← hst] at hnodup hnamed
  have hplaced : ∀ f ∈ files, ∃ k ∈ ks, f.storage? = some k.storage := by
    intro f hf
    obtain ⟨p, hp, hfp⟩ := hlists.placed hparts f hf
    obtain ⟨k, hk, hks⟩ := List.mem_map.1
      ((hnamed p.srcstorage).2 ⟨f, hf, hfp⟩)
    exact ⟨k, hk, by rw [hfp, hks]⟩
  have hdoubles : totalSize parts
      = sumDoubles (ks.map fun k => DatasetFile.total files k.storage) := by
    rw [hsizes]
    unfold totalSize sumDoubles
    rw [List.foldl_map]
  refine ⟨ks, hnodup, ?_, hplaced, hall, ?_, ?_, totalSize parts, ?_, ?_, ?_⟩
  · intro k hk
    exact (hnamed k.storage).1 (List.mem_map_of_mem hk)
  · rw [hsrc.get, hsrcs]
  · rw [hsame, hblocks, hdocs']
  · exact hsize.get
  · exact hdoubles
  · intro hadd
    rw [hdoubles]
    refine sumDoubles_eq hadd (Nat.lt_of_le_of_lt (Nat.le_of_eq ?_) hsum)
    rw [← DatasetFile.sum_total hnodup, List.map_map]
    · rfl
    · intro f hf
      obtain ⟨k, hk, hfk⟩ := hplaced f hf
      exact ⟨k.storage, List.mem_map_of_mem hk, hfk⟩

/-- The id of the site, the user and the job below. -/
def sampleId : ObjectId := ⟨List.replicate 24 'a', rfl, rfl⟩

def samplePremises : Premises where
  sites := [⟨sampleId, [("url", .str "site.example")]⟩]
  usercerts := []
  hasLauncher := true
  generateProxyCert := fun _ _ => .error "no certificate"
  ldGroupSize := 1000
  ldChecksum := false
  ldChecksumAlg := "none"

/-- A file on one of two disks. -/
def sampleFile (store path : String) (size : UInt64) : DatasetFile where
  src := sampleId.text ++ "|dtn|" ++ store ++ "|" ++ path
  dst := sampleId.text ++ "|dtn|disk|/in"
  size := size
  more := [.int 0]

def sampleFiles : List DatasetFile :=
  [sampleFile "disk1" "/data/a" 5, sampleFile "disk2" "b" 7,
    sampleFile "disk1" "/data/c/d" 11]

def sampleJob (deadline : Int) (files : List DatasetFile) : Json :=
  .obj [("_id", sampleId.toJson), ("deadline", .int deadline),
    ("files", .arr (files.map DatasetFile.toJson)),
    ("srcsite", sampleId.toJson), ("user", sampleId.toJson)]

/-- A portal that answers every question alike. -/
def sampleIntake (answer : Int × Json) : Intake where
  rawjobs := []
  sjobs := []
  blocks := []
  oids := fun _ => sampleId
  mail := ⟨fun _ => answer, []⟩

/-- Returns, and with a value. -/
def returnsValue {σ α : Type} :
    EStateM.Result String σ (Except String α) → Bool
  | .ok (.ok _) _ => true
  | _ => false

/-- Three files on two disks are parsed, and conserved. -/
theorem dataset_conserved_three :
    ∃ job t, (parseRawJobSrcDs samplePremises
        (sampleJob 60 sampleFiles)).run (sampleIntake (200, .null))
        = .ok (.ok job) t
      ∧ DatasetConserved sampleFiles (sampleIntake (200, .null)) t job := by
  have hparsed : returnsValue ((parseRawJobSrcDs samplePremises
      (sampleJob 60 sampleFiles)).run (sampleIntake (200, .null))) = true := by
    decide +kernel
  cases hrun : (parseRawJobSrcDs samplePremises
      (sampleJob 60 sampleFiles)).run (sampleIntake (200, .null)) with
  | error e t =>
      rw [hrun] at hparsed
      cases hparsed
  | ok r t =>
      cases r with
      | error e =>
          rw [hrun] at hparsed
          cases hparsed
      | ok job =>
          exact ⟨job, t, rfl, dataset_conserved rfl (by decide) hrun⟩

end BigDataExpress

/-
Source and destination, exchanged.

The choice of a DTN pair and the labels of the WAN terminals are written
twice, for the source and for the destination. The two halves of the
choice mirror each other but for the storages: the destination's is put
where the source's belongs (`pair_mirrored_iff`). The label of the
destination asks whether the source has constraints
(`labels_mirrored_iff`).

A network handler makes one kind of call that carries labels, and the
labels are the same on every path (`networkHandling_labels`).
-/
import BigDataExpress.Proofs.NetActs

namespace BigDataExpress

open Interact

-- ============================================================= DTN pairs

/-- What a handler returns whose requests for DTNs are answered in this
order. -/
def answered {α : Type} : Handler α → List DtnAnswer → Option α
  | .pure a, [] => some a
  | .call (.availableDtn ..) k, r :: rs => answered (k r) rs
  | _, _ => none

/-- The pair with source and destination exchanged. -/
def DtnPair.mirror (p : DtnPair) : DtnPair where
  isPrivate := p.isPrivate
  srcDtn := p.dstDtn
  dstDtn := p.srcDtn
  srcStorage := p.dstStorage
  dstStorage := p.srcStorage

/-- With the sites and their answers exchanged, a pair that is found is
the mirror image. -/
def PairMirrored (srcStorage dstStorage : String) (src dst : SiteInfo)
    (rSrc rDst : DtnAnswer) : Prop :=
  ∀ pair, answered (findBestEffortDtnPair srcStorage dstStorage src dst)
      [rSrc, rDst] = some (.ok pair) →
    answered (findBestEffortDtnPair dstStorage srcStorage dst src)
      [rDst, rSrc] = some (.ok pair.mirror)

/-- The DTNs that are chosen, and whether they are private ones. -/
def chosen (rSrc rDst : DtnAnswer) : Option (Bool × Dtn × Dtn) :=
  match rSrc.privateDtns, rDst.privateDtns with
  | s :: _, d :: _ => some (true, s, d)
  | _, _ =>
      match rSrc.publicDtns, rDst.publicDtns with
      | s :: _, d :: _ => some (false, s, d)
      | _, _ => none

theorem chosen_symm {rSrc rDst : DtnAnswer} {b : Bool} {x y : Dtn}
    (h : chosen rSrc rDst = some (b, x, y)) :
    chosen rDst rSrc = some (b, y, x) := by
  unfold chosen at h ⊢
  cases hps : rSrc.privateDtns <;> cases hpd : rDst.privateDtns <;>
    cases hus : rSrc.publicDtns <;> cases hud : rDst.publicDtns <;>
    simp_all

/-- A pair is found if both sites answer and there is a choice; for its
source it has the storage of the destination. -/
theorem answered_eq_ok {s d : String} {src dst : SiteInfo}
    {rSrc rDst : DtnAnswer} {pair : DtnPair} :
    answered (findBestEffortDtnPair s d src dst) [rSrc, rDst]
        = some (.ok pair)
      ↔ (rSrc.http = 200 ∧ rDst.http = 200) ∧ ∃ b x y,
          chosen rSrc rDst = some (b, x, y)
          ∧ pair = ⟨b, { x with site := src }, { y with site := dst },
            rDst.storage, none⟩ := by
  have heq : answered (findBestEffortDtnPair s d src dst) [rSrc, rDst]
      = some (if rSrc.http ≠ 200 then
            .error (100, "source site portal unreachable")
          else if rDst.http ≠ 200 then
            .error (101, "destination site portal unreachable")
          else match chosen rSrc rDst with
            | some (b, x, y) => .ok ⟨b, { x with site := src },
                { y with site := dst }, rDst.storage, none⟩
            | none => .error (201,
                "unable to find either private or public DTN pairs")) := by
    unfold findBestEffortDtnPair chosen
    show answered (if rSrc.http ≠ 200 then _ else _) [] = _
    split
    · rfl
    · split
      · rfl
      · cases rSrc.privateDtns <;> cases rDst.privateDtns <;>
          cases rSrc.publicDtns <;> cases rDst.publicDtns <;> rfl
  rw [heq]
  by_cases hs : rSrc.http = 200
  · by_cases hd : rDst.http = 200
    · rw [if_neg (not_not.2 hs), if_neg (not_not.2 hd)]
      cases hc : chosen rSrc rDst with
      | none =>
          constructor
          · intro h
            cases h
          · intro h
            obtain ⟨_, b, x, y, hxy, _⟩ := h
            cases hxy
      | some c =>
          obtain ⟨b, x, y⟩ := c
          constructor
          · intro h
            injection h with h
            injection h with h
            exact ⟨⟨hs, hd⟩, b, x, y, rfl, h.symm⟩
          · intro h
            obtain ⟨_, b', x', y', hxy, rfl⟩ := h
            injection hxy with hxy
            cases hxy
            rfl
    · rw [if_neg (not_not.2 hs), if_pos hd]
      constructor
      · intro h
        cases h
      · exact fun h => absurd h.1.2 hd
  · rw [if_pos hs]
    constructor
    · intro h
      cases h
    · exact fun h => absurd h.1.1 hs

/-- The choice mirrors exactly when there is none, or neither site names
a storage. -/
theorem pair_mirrored_iff (s d : String) (src dst : SiteInfo)
    (rSrc rDst : DtnAnswer) :
    PairMirrored s d src dst rSrc rDst
      ↔ (rSrc.http = 200 → rDst.http = 200 →
          (chosen rSrc rDst).isSome = true →
            rSrc.storage = none ∧ rDst.storage = none) := by
  unfold PairMirrored
  constructor
  · intro h hs hd hc
    obtain ⟨⟨b, x, y⟩, hxy⟩ := Option.isSome_iff_exists.1 hc
    have hmirror := h _ (answered_eq_ok.2 ⟨⟨hs, hd⟩, b, x, y, hxy, rfl⟩)
    obtain ⟨_, b', x', y', _, heq⟩ := answered_eq_ok.1 hmirror
    have hsrc := congrArg DtnPair.srcStorage heq
    have hdst := congrArg DtnPair.dstStorage heq
    exact ⟨hsrc.symm, hdst⟩
  · intro h pair hpair
    obtain ⟨⟨hs, hd⟩, b, x, y, hxy, rfl⟩ := answered_eq_ok.1 hpair
    obtain ⟨hsrc, hdst⟩ := h hs hd (by rw [hxy]; rfl)
    refine answered_eq_ok.2 ⟨⟨hd, hs⟩, b, y, x, chosen_symm hxy, ?_⟩
    unfold DtnPair.mirror
    rw [hsrc, hdst]

-- ================================================================ labels

/-- The VLAN labels a call carries. -/
def Call.labels? : Call → Option (String × String)
  | .wanCreate _ _ srcVlan dstVlan => some (srcVlan, dstVlan)
  | _ => none

/-- The labels are requested for the two WAN terminals. -/
def RequestsLabels (sid : Oid) (src dst : Dtn) (a b : String) : Prop :=
  (networkHandling sid src dst).MayCall fun e => e.labels? = some (a, b)

/-- No labels, or only these. -/
abbrev Labelled {α : Type} (l : Option (String × String))
    (p : Handler α) : Prop :=
  p.Acts (fun _ => True) fun e => e.labels? = none ∨ e.labels? = l

namespace Labelled

variable {α : Type} {l : Option (String × String)} {sid : Oid}

theorem stage {s : StageName} {v : SjobStage} :
    Labelled l (SiteStore.updateSjobStage sid s v) := .modify trivial

theorem stageIf {c : Bool} {s : StageName} {v : SjobStage} :
    Labelled l (SiteStore.updateSjobStageIf c sid s v) := by
  cases c with
  | true => exact stage
  | false => exact .pure ()

theorem state {s : SjobState} :
    Labelled l (SiteStore.updateSjobState sid s) := .modify trivial

/-- A call without labels. -/
theorem other {e : Call} (h : e.labels? = none) : Labelled l (ask e) :=
  .ask (.inl h)

theorem attempts {e : Call} {ok : Reply e → Bool} (h : e.labels? = none)
    (n : Nat) : Labelled l (WAN.attempts e ok n) := by
  induction n with
  | zero => exact .pure false
  | succ n ih =>
      refine .bind' (other h) fun r => ?_
      split
      · exact .pure true
      · exact ih

theorem setupWanPath (src dst : Dtn) (v v' : String) :
    Labelled (some (v, v')) (setupWanPath src dst v v') := by
  refine .bind' (.ask (.inr rfl)) fun c => ?_
  split
  · exact .pure _
  · refine .bind' (other rfl) fun r₁ => ?_
    split
    · exact .bind' (attempts rfl _) fun _ => .pure _
    · refine .bind' (other rfl) fun r₂ => ?_
      split
      · exact .bind' (attempts rfl _) fun _ => .pure _
      · exact .pure _

theorem reserveLoop (url : String) (req : ReserveRequest) (setup : Bool)
    (lan tear : StageName) (n : Nat) :
    Labelled l (reserveLoop sid url req setup lan tear n) := by
  have hattempt : ∀ failed : ReserveAnswer →
      Handler (Except ReserveAnswer Int), (∀ r, Labelled l (failed r)) →
        Labelled l (reserveAttempt sid url req setup lan tear failed) := by
    intro failed hf
    refine .bind' stageIf fun _ => .bind' (other rfl) fun r => ?_
    split
    · exact .bind' stageIf fun _ => .bind' stageIf fun _ => .pure _
    · exact hf r
  induction n with
  | zero => exact hattempt _ fun r => .bind' stage fun _ => .pure _
  | succ n ih => exact hattempt _ fun _ => ih

theorem networkPending (src dst : Dtn) :
    Labelled l (networkPending sid src dst) :=
  .bind' stage fun _ => .bind' stageIf fun _ => stageIf

theorem networkSdn (src dst : Dtn) (uuid : String) (bw v v' : Int) :
    Labelled l (networkSdn sid src dst uuid bw v v') := by
  have hping : Labelled l (prePings false src dst) := .pure ()
  have hpath : Labelled l (setupSdnPath sid src dst bw false v v') := by
    refine .bind' hping fun _ => .bind' (reserveLoop ..) fun r => ?_
    split
    · exact .pure _
    · refine .bind' (reserveLoop ..) fun r' => ?_
      split
      · exact .pure _
      · exact .pure _
  refine .bind' state fun _ => .bind' hpath fun r => ?_
  split
  · exact .pure _
  · exact .pure _

/-- All calls of the handler that carry labels carry these. -/
theorem networkHandling (src dst : Dtn) :
    Labelled
      (if staticCircuit src dst = none ∧ src.stp.isSome ∧ dst.stp.isSome
        then some (wanSrcVlanLabel src, wanDstVlanLabel src dst) else none)
      (networkHandling sid src dst) := by
  unfold BigDataExpress.networkHandling
  cases hstatic : staticCircuit src dst with
  | some c =>
      exact .bind' stage fun _ => .bind' stage fun _ =>
        .bind' (networkPending ..) fun _ => networkSdn ..
  | none =>
      dsimp only
      by_cases hstp : (src.stp.isSome && dst.stp.isSome) = true
      · rw [if_pos hstp, if_pos ⟨rfl, Bool.and_eq_true_iff.1 hstp⟩]
        refine .bind' state fun _ => .bind' stage fun _ =>
          .bind' stage fun _ => .bind' (networkPending ..) fun _ =>
          .bind' (setupWanPath ..) fun r => ?_
        split
        · exact .bind' stage fun _ => .pure _
        · exact .bind' stage fun _ => .bind' stage fun _ => networkSdn ..
      · rw [if_neg hstp]
        exact .bind' stage fun _ => .pure _

end Labelled

/-- Labels are requested exactly where there is no static path and both
sides have an STP, and they are those of the two sides. -/
theorem requestsLabels_iff {sid : Oid} {src dst : Dtn} {a b : String} :
    RequestsLabels sid src dst a b
      ↔ (staticCircuit src dst = none ∧ src.stp.isSome ∧ dst.stp.isSome)
        ∧ a = wanSrcVlanLabel src ∧ b = wanDstVlanLabel src dst := by
  constructor
  · intro h
    obtain ⟨e, he, hlabels⟩ := h.of_acts (Labelled.networkHandling src dst)
    rw [hlabels] at he
    rcases he with he | he
    · cases he
    · split at he
      · rename_i hreq
        injection he with he
        cases he
        exact ⟨hreq, rfl, rfl⟩
      · cases he
  · intro h
    obtain ⟨⟨hstatic, hsrc, hdst⟩, rfl, rfl⟩ := h
    let w : World := ⟨[], [], [], [], [], fun _ _ => none, [], false, [], [],
      []⟩
    unfold RequestsLabels networkHandling
    rw [hstatic]
    dsimp only
    rw [hsrc, hdst]
    unfold networkPending SiteStore.updateSjobStageIf
    cases src.sdnSetup <;> cases dst.sdnSetup
    · exact ⟨w, w, w, w, .inl rfl⟩
    · exact ⟨w, w, w, w, w, .inl rfl⟩
    · exact ⟨w, w, w, w, w, .inl rfl⟩
    · exact ⟨w, w, w, w, w, w, .inl rfl⟩

/-- No static path is configured between the two, either way. -/
def NoStatic (src dst : Dtn) : Prop :=
  staticCircuit src dst = none ∧ staticCircuit dst src = none

/-- A label of the DTN's own: any, its STP constraint or its VLAN id. -/
def OwnLabel (d : Dtn) (label : String) : Prop :=
  label = "any" ∨ (d.hasVlanConstraints = true ∧ label = d.vlanConstraints)
    ∨ label = toString d.dataVlanId

/-- Exchanging the DTNs exchanges the labels, and each is of the own
DTN. -/
def LabelsMirrored (sid : Oid) (src dst : Dtn) : Prop :=
  NoStatic src dst → ∀ a b, RequestsLabels sid src dst a b →
    RequestsLabels sid dst src b a ∧ OwnLabel src a ∧ OwnLabel dst b

/-- The label of `dst` is its own: without constraints of its own or a
controller it has no use for them, and otherwise the other side has
constraints exactly if it has, or its constraint is any. -/
def KeepsLabel (src dst : Dtn) : Prop :=
  dst.sdnSetup = true → dst.hasVlanConstraints = true →
    (dst.vlanConstraints = "any"
      ∨ (src.vlanConstraints = "" ↔ dst.vlanConstraints = ""))

theorem wanDstVlanLabel_eq_iff (src dst : Dtn) :
    wanDstVlanLabel src dst = wanSrcVlanLabel dst ↔ KeepsLabel src dst := by
  unfold wanDstVlanLabel wanSrcVlanLabel KeepsLabel
  by_cases hsdn : dst.sdnSetup = true
  · by_cases hcon : dst.hasVlanConstraints = true
    · by_cases hs : src.vlanConstraints = ""
      · by_cases hd : dst.vlanConstraints = ""
        · simp [hsdn, hcon, hs, hd]
        · simp [hsdn, hcon, hs, hd, eq_comm]
      · by_cases hd : dst.vlanConstraints = ""
        · simp [hsdn, hcon, hs, hd]
        · simp [hsdn, hcon, hs, hd]
    · simp [hsdn, hcon]
  · simp [hsdn]

theorem ownLabel_src (d : Dtn) : OwnLabel d (wanSrcVlanLabel d) := by
  unfold wanSrcVlanLabel
  split
  · split
    · rename_i h
      exact .inr (.inl ⟨h.1, rfl⟩)
    · exact .inl rfl
  · exact .inr (.inr rfl)

/-- The labels mirror exactly when each side keeps its own. -/
theorem labels_mirrored_iff (sid : Oid) (src dst : Dtn) :
    LabelsMirrored sid src dst
      ↔ (NoStatic src dst → src.stp.isSome → dst.stp.isSome →
          KeepsLabel src dst ∧ KeepsLabel dst src) := by
  unfold LabelsMirrored
  refine imp_congr_right fun hno => ?_
  rw [← wanDstVlanLabel_eq_iff, ← wanDstVlanLabel_eq_iff]
  constructor
  · intro h hsrc hdst
    obtain ⟨hswap, _⟩ := h _ _
      (requestsLabels_iff.2 ⟨⟨hno.1, hsrc, hdst⟩, rfl, rfl⟩)
    obtain ⟨_, h₁, h₂⟩ := requestsLabels_iff.1 hswap
    exact ⟨h₁, h₂.symm⟩
  · intro h a b hreq
    obtain ⟨⟨_, hsrc, hdst⟩, rfl, rfl⟩ := requestsLabels_iff.1 hreq
    obtain ⟨h₁, h₂⟩ := h hsrc hdst
    refine ⟨requestsLabels_iff.2 ⟨⟨hno.2, hdst, hsrc⟩, h₁, h₂.symm⟩,
      ownLabel_src src, ?_⟩
    rw [h₁]
    exact ownLabel_src dst

/-- The choice of a DTN pair and the labels mirror under exactly these
conditions on the answers, and on the descriptions. -/
theorem source_destination_mirror_iff (s d : String) (srcSite dstSite : SiteInfo)
    (rSrc rDst : DtnAnswer) (sid : Oid) (src dst : Dtn) :
    (PairMirrored s d srcSite dstSite rSrc rDst
        ↔ (rSrc.http = 200 → rDst.http = 200 →
            (chosen rSrc rDst).isSome = true →
              rSrc.storage = none ∧ rDst.storage = none))
      ∧ (LabelsMirrored sid src dst
        ↔ (NoStatic src dst → src.stp.isSome → dst.stp.isSome →
            KeepsLabel src dst ∧ KeepsLabel dst src)) :=
  ⟨pair_mirrored_iff s d srcSite dstSite rSrc rDst,
    labels_mirrored_iff sid src dst⟩

/-- A DTN behind a controller, with the constraint of its STP. -/
def constrained (name constraint : String) : Dtn where
  id := name
  ip := "10.0.0.1"
  dataIp := "10.1.0.1"
  dataMac := "00:00:00:00:00:01"
  dtpCtrlPort := 5001
  sdnSetup := true
  dataVlanId := 7
  wanStatic := []
  stp := some ⟨"stp-" ++ name, some constraint⟩
  site := ⟨name, name⟩
  wanUuid := ""
  pathId := -1

/-- An answer that offers one private DTN. -/
def offers (storage : String) (d : Dtn) : DtnAnswer :=
  ⟨200, some storage, [d], []⟩

/-- Two sites with one private DTN each, of which only the destination
has a VLAN constraint: the storages are not mirrored, and the label of
the destination is any instead of the constraint. -/
theorem source_destination_not_mirrored :
    ¬ PairMirrored "a|disk" "b|disk" ⟨"a", "a"⟩ ⟨"b", "b"⟩
        (offers "a|disk" (constrained "a" ""))
        (offers "b|disk" (constrained "b" "100"))
      ∧ ¬ LabelsMirrored 1 (constrained "a" "") (constrained "b" "100") := by
  constructor
  · intro h
    have hpair := h _ (answered_eq_ok.2
      ⟨⟨rfl, rfl⟩, true, _, _, rfl, rfl⟩)
    obtain ⟨_, b, x, y, _, heq⟩ := answered_eq_ok.1 hpair
    have hstorage : none = some "a|disk" := congrArg DtnPair.srcStorage heq
    cases hstorage
  · intro h
    have hreq : RequestsLabels 1 (constrained "a" "")
        (constrained "b" "100") "any" "any" :=
      requestsLabels_iff.2 ⟨by decide, by decide, by decide⟩
    obtain ⟨hswap, _⟩ := h (by unfold NoStatic; decide) _ _ hreq
    obtain ⟨_, hlabel, _⟩ := requestsLabels_iff.1 hswap
    revert hlabel
    decide

end BigDataExpress

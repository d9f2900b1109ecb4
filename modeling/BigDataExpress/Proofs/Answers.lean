/-
What a missing answer is taken for: the three places that test for
success by `code.asInt() == 0`, on a JSON value that may lack the field.

`verify_path` looks at the body of a portal post, `get_total_size` and
`get_dtn_info` at the result of an RPC call. A post that fails has a null
body, and a call that times out returns an object without a code; both
read as code 0. So each of the three reports a success exactly when the
first thing it takes for one is a real answer, and this is what
`success_iff_answered` says, with the outcomes of the calls as input.

The loop of `get_total_size` is followed by `totalSizes_run`: it sizes
files until the first that it refuses or throws at, with one call for
each.
-/
import BigDataExpress.Proofs.Atomic
import BigDataExpress.Proofs.Serve
import BigDataExpress.Server.ResourceManager

namespace BigDataExpress

open Interact Stateful

-- ================================================================= codes

/-- The code, if the reply can be read, is there. -/
def Coded (r : Json) : Prop := ∀ c, r.get "code" = .ok c → c.isNull = false

/-- The reply carries a code, and it reads as 0. -/
def Succeeds (r : Json) : Prop :=
  ∃ c, r.get "code" = .ok c ∧ c.isNull = false ∧ c.asInt = .ok 0

theorem codeOf_eq_ok {r : Json} {n : Int} :
    codeOf r = .ok n ↔ ∃ c, r.get "code" = .ok c ∧ c.asInt = .ok n :=
  Stateful.bind_eq_ok

/-- A code that is there and was taken for a success is one. -/
theorem Coded.succeeds {r : Json} (h : Coded r) (hr : codeOf r = .ok 0) :
    Succeeds r := by
  obtain ⟨c, hc, h0⟩ := codeOf_eq_ok.1 hr
  exact ⟨c, hc, h c hc, h0⟩

/-- A reply without a code is taken for a success. -/
theorem codeOf_of_not_coded {r : Json} (h : ¬ Coded r) :
    codeOf r = .ok 0 := by
  unfold Coded at h
  push Not at h
  obtain ⟨c, hc, hnull⟩ := h
  rw [ne_eq, Bool.not_eq_false] at hnull
  exact codeOf_eq_ok.2 ⟨c, hc, Json.asInt_null hnull⟩

theorem Succeeds.coded {r : Json} (h : Succeeds r) : Coded r := by
  obtain ⟨c, hc, hnull, _⟩ := h
  intro c' hc'
  rw [hc] at hc'
  injection hc' with hc'
  exact hc' ▸ hnull

-- =========================================================== verify_path

section pings

variable (h : HandlerId) (o : Oracle World Call Reply) (src dst : Dtn)

/-- The ping that `verify_path` repeats. -/
def pathPing : Call := .icmpPing src.site.url src.id dst.dataIp

/-- A world in which the ping was made. -/
def pinged (w : World) : World :=
  World.record h w (pathPing src dst) (o w (pathPing src dst))

/-- What the `k`-th ping is answered. -/
def pingReply (w : World) (k : Nat) : PingAnswer :=
  o ((pinged h o src dst)^[k] w) (pathPing src dst)

/-- The answer is taken for a success. -/
def PingAnswer.Passes (r : PingAnswer) : Prop := r.code.getD 0 = 0

/-- The answer is a success. -/
def PingAnswer.Succeeds (r : PingAnswer) : Prop :=
  r.http = 200 ∧ r.code = some 0

/-- The attempts `verify_path` makes. -/
def maxRetry : Nat := if src.wanUuid = "" then 5 else 30

theorem log_pinged (w : World) (k : Nat) :
    ((pinged h o src dst)^[k] w).log = w.log
      ++ (List.range k).map fun j =>
        (⟨h, pathPing src dst, pingReply h o src dst w j⟩ : LogEntry) := by
  induction k with
  | zero => exact (List.append_nil _).symm
  | succ k ih =>
      rw [Function.iterate_succ_apply', List.range_succ, List.map_append,
        ← List.append_assoc, ← ih]
      rfl

/-- The loop ends well with the first ping that is taken for a
success. -/
theorem pingLoop_run (n : Nat) (w w' : World) :
    (pingLoop src.site.url src.id dst.dataIp n).run (World.env h) o w
        = (.ok (.ok ()), w')
      ↔ ∃ k ≤ n, (∀ j < k, ¬ (pingReply h o src dst w j).Passes)
        ∧ (pingReply h o src dst w k).Passes
        ∧ w' = (pinged h o src dst)^[k + 1] w := by
  induction n generalizing w with
  | zero =>
      change (if (pingReply h o src dst w 0).code.getD 0 = 0
        then (pure (.ok ()) : Handler (Except (Int × String) Unit))
        else _).run _ o (pinged h o src dst w) = _ ↔ _
      by_cases h0 : (pingReply h o src dst w 0).code.getD 0 = 0
      · rw [if_pos h0]
        constructor
        · intro hr
          injection hr with _ hw
          exact ⟨0, Nat.le_refl 0, fun j hj => absurd hj (Nat.not_lt_zero j),
            h0, hw.symm⟩
        · intro hk
          obtain ⟨k, hk, _, _, hw⟩ := hk
          obtain rfl := Nat.le_zero.1 hk
          rw [hw]
          rfl
      · rw [if_neg h0]
        constructor
        · intro hr
          injection hr with hr _
          injection hr with hr
          cases hr
        · intro hk
          obtain ⟨k, hk, _, hpass, _⟩ := hk
          obtain rfl := Nat.le_zero.1 hk
          exact absurd hpass h0
  | succ n ih =>
      change (if (pingReply h o src dst w 0).code.getD 0 = 0
        then (pure (.ok ()) : Handler (Except (Int × String) Unit))
        else pingLoop src.site.url src.id dst.dataIp n).run _ o
          (pinged h o src dst w) = _ ↔ _
      by_cases h0 : (pingReply h o src dst w 0).code.getD 0 = 0
      · rw [if_pos h0]
        constructor
        · intro hr
          injection hr with _ hw
          exact ⟨0, Nat.zero_le _, fun j hj => absurd hj (Nat.not_lt_zero j),
            h0, hw.symm⟩
        · intro hk
          obtain ⟨k, _, hfirst, _, hw⟩ := hk
          have hk0 : k = 0 := by
            by_contra hne
            exact hfirst 0 (Nat.pos_of_ne_zero hne) h0
          subst hk0
          rw [hw]
          rfl
      · rw [if_neg h0, ih]
        constructor
        · intro hk
          obtain ⟨k, hk, hfirst, hpass, hw⟩ := hk
          refine ⟨k + 1, Nat.succ_le_succ hk, fun j hj => ?_, hpass, hw⟩
          cases j with
          | zero => exact h0
          | succ j => exact hfirst j (Nat.lt_of_succ_lt_succ hj)
        · intro hk
          obtain ⟨k, hk, hfirst, hpass, hw⟩ := hk
          cases k with
          | zero => exact absurd hpass h0
          | succ k =>
              exact ⟨k, Nat.le_of_succ_le_succ hk,
                fun j hj => hfirst (j + 1) (Nat.succ_lt_succ hj), hpass, hw⟩

/-- `verify_path` returns code 0 only after a ping that succeeded. -/
def VerifiedOnAnswer (w : World) : Prop :=
  ∀ w', (verifyPath src dst).run (World.env h) o w = (.ok (.ok ()), w') →
    ∃ r : PingAnswer, r.Succeeds
      ∧ (⟨h, pathPing src dst, r⟩ : LogEntry) ∈ w'.log.drop w.log.length

/-- The first ping, within the limit, that was answered without a code
or with code 0, if there is one, was a success. -/
def FirstPingAnswered (w : World) : Prop :=
  ∀ k < maxRetry src,
    (∀ j < k, ¬ (pingReply h o src dst w j).Passes) →
    (pingReply h o src dst w k).Passes → (pingReply h o src dst w k).Succeeds

theorem verifiedOnAnswer_iff (w : World) :
    VerifiedOnAnswer h o src dst w ↔ FirstPingAnswered h o src dst w := by
  have hlimit : ∀ k, k ≤ (if src.wanUuid = "" then 4 else 29)
      ↔ k < maxRetry src := by
    intro k
    unfold maxRetry
    split <;> omega
  have hlog : ∀ (r : PingAnswer) (k : Nat),
      (⟨h, pathPing src dst, r⟩ : LogEntry)
        ∈ ((pinged h o src dst)^[k + 1] w).log.drop w.log.length
      ↔ ∃ j ≤ k, pingReply h o src dst w j = r := by
    intro r k
    rw [log_pinged, List.drop_left, List.mem_map]
    constructor
    · intro hj
      obtain ⟨j, hj, he⟩ := hj
      injection he with _ _ he
      exact ⟨j, Nat.le_of_lt_succ (List.mem_range.1 hj), he⟩
    · intro hj
      obtain ⟨j, hj, rfl⟩ := hj
      exact ⟨j, List.mem_range.2 (Nat.lt_succ_of_le hj), rfl⟩
  constructor
  · intro hv k hk hfirst hpass
    obtain ⟨r, hr, hmem⟩ := hv _ ((pingLoop_run h o src dst _ w _).2
      ⟨k, (hlimit k).2 hk, hfirst, hpass, rfl⟩)
    obtain ⟨j, hj, rfl⟩ := (hlog r k).1 hmem
    obtain hlt | rfl := Nat.lt_or_eq_of_le hj
    · refine absurd ?_ (hfirst j hlt)
      unfold PingAnswer.Passes
      rw [hr.2]
      rfl
    · exact hr
  · intro hf w' hrun
    obtain ⟨k, hk, hfirst, hpass, rfl⟩ :=
      (pingLoop_run h o src dst _ w w').1 hrun
    exact ⟨_, hf k ((hlimit k).1 hk) hfirst hpass,
      (hlog _ k).2 ⟨k, Nat.le_refl k, rfl⟩⟩

end pings

-- ========================================================== get_dtn_info

section commands

variable (site : SiteView) (params : Json) (props : RpcProps)
  (outcomes : Nat → Json)

/-- The session of `get_dtn_info`, at its end. -/
def dtnInfoEnd : Session :=
  Stateful.after (getDtnInfo site params (Serve.sendResponse props))
    { outcomes := outcomes }

/-- `get_dtn_info` returns a disk usage only after the DTN answered with
code 0. -/
def DiskOnAnswer : Prop :=
  ∀ res ∈ (dtnInfoEnd site params props outcomes).sent,
    res.2.isMember "disk" = .ok true →
    ∃ k queue rid path, Succeeds (outcomes k)
      ∧ (dtnInfoEnd site params props outcomes).calls[k]?
        = some (queue, diskUsageRequest rid path)

/-- If a disk usage is asked for, the reply has a code. -/
def DiskCoded : Prop :=
  ∀ dtnId dtn path, textOf params "dtn" = .ok dtnId →
    site.look (RGraph.getDtnNode dtnId) = .ok dtn →
    textOf params "path" = .ok path → path ≠ "" →
    RpcClient.topicOf dtn.data.queue ≠ "rpc/" → Coded (outcomes 0)

/-- A disk is in the answer exactly when the code of the reply read as
0. -/
theorem diskAnswer_eq_ok {dtn r res : Json} (h : diskAnswer dtn r = .ok res) :
    res.isMember "disk" = .ok true ↔ codeOf r = .ok 0 := by
  obtain ⟨code, hcode, h⟩ := Stateful.bind_eq_ok.1 h
  rw [hcode]
  by_cases h0 : code = 0
  · rw [if_neg (not_not.2 h0)] at h
    obtain ⟨result, _, h⟩ := Stateful.bind_eq_ok.1 h
    injection h with h
    subst h
    simp [Json.object, Json.lookup_assign, h0]
  · rw [if_pos h0] at h
    obtain ⟨error, _, h⟩ := Stateful.bind_eq_ok.1 h
    injection h with h
    subst h
    simp [Json.object, Json.lookup_assign, Json.lookup, h0]

/-- A reply without a code gives an answer. -/
theorem diskAnswer_of_not_coded (dtn : Json) {r : Json} (h : ¬ Coded r) :
    ∃ res, diskAnswer dtn r = .ok res := by
  have hcode := codeOf_of_not_coded h
  obtain ⟨c, hc, _⟩ := codeOf_eq_ok.1 hcode
  obtain ⟨result, hresult⟩ := Json.get_of_get hc "result"
  refine ⟨.object [("dtn", dtn), ("disk", result)], ?_⟩
  refine Stateful.bind_eq_ok.2 ⟨0, hcode, ?_⟩
  rw [if_neg (not_not.2 rfl)]
  exact Stateful.bind_eq_ok.2 ⟨result, hresult, rfl⟩

/-- A request about the disk that was made: the session ends as the
reply has it. -/
theorem dtnInfoEnd_asked {dtnId path : String} {dtn : PtrGraph.Node RNode}
    (hid : textOf params "dtn" = .ok dtnId)
    (hdtn : site.look (RGraph.getDtnNode dtnId) = .ok dtn)
    (hpath : textOf params "path" = .ok path) (hne : path ≠ "")
    (htopic : RpcClient.topicOf dtn.data.queue ≠ "rpc/") :
    dtnInfoEnd site params props outcomes =
      { outcomes := outcomes
        calls := [(dtn.data.queue, diskUsageRequest dtn.data.rid path)]
        sent := match diskAnswer (site.properties dtn.addr) (outcomes 0) with
          | .ok res => [(props, res)]
          | .error _ => [] } := by
  have hhas : RGraph.hasDtnNode site.graph dtnId = true := by
    unfold RGraph.hasDtnNode
    rw [SiteView.look_getDtnNode.1 hdtn]
    rfl
  refine Stateful.wp.after (P := fun t => t = _) ?_
  unfold getDtnInfo answerMissing
  simp only [wp_bind, Serve.wp_read_ok hid, hhas, Serve.wp_read_ok hdtn,
    Serve.wp_read_ok hpath, if_neg hne, Bool.not_true,
    Bool.false_eq_true, if_false, wp_pure]
  rw [Serve.wp_rpc]
  refine ⟨fun _ => ?_, fun heq => absurd heq htopic⟩
  rw [Serve.wp_read]
  constructor
  · intro res hres
    rw [Serve.wp_sendResponse]
    change diskAnswer _ (outcomes 0) = .ok res at hres
    rw [hres]
    rfl
  · intro e he
    change diskAnswer _ (outcomes 0) = .error e at he
    rw [he]
    rfl

/-- Without a request about the disk there is no disk in the answer. -/
theorem dtnInfoEnd_not_asked
    (hno : ∀ dtnId dtn path, textOf params "dtn" = .ok dtnId →
      site.look (RGraph.getDtnNode dtnId) = .ok dtn →
      textOf params "path" = .ok path →
      path = "" ∨ RpcClient.topicOf dtn.data.queue = "rpc/") :
    ∀ res ∈ (dtnInfoEnd site params props outcomes).sent,
      res.2.isMember "disk" = .ok false := by
  refine Stateful.wp.after (P := fun t : Session =>
    ∀ res ∈ t.sent, res.2.isMember "disk" = .ok false) ?_
  have hnil : ∀ res : RpcProps × Json, res ∈ ([] : List (RpcProps × Json)) →
      res.2.isMember "disk" = .ok false := fun _ hres => (by cases hres)
  have hone : ∀ v : Json, v.isMember "disk" = .ok false →
      ∀ res ∈ [(props, v)], res.2.isMember "disk" = .ok false := by
    intro v hv res hres
    rw [List.mem_singleton.1 hres]
    exact hv
  unfold getDtnInfo answerMissing
  rw [wp_bind, Serve.wp_read]
  refine ⟨fun dtnId hid => ?_, fun _ _ => hnil⟩
  rw [wp_bind]
  cases hhas : RGraph.hasDtnNode site.graph dtnId with
  | false =>
      -- the lookup that follows the empty answer throws
      have hnone : ∀ dtn, site.look (RGraph.getDtnNode dtnId) ≠ .ok dtn := by
        intro dtn hdtn
        unfold RGraph.hasDtnNode at hhas
        rw [SiteView.look_getDtnNode.1 hdtn] at hhas
        cases hhas
      simp only [Bool.not_false, if_true, Serve.wp_sendResponse, wp_bind,
        Serve.wp_read]
      exact ⟨fun dtn hdtn => absurd hdtn (hnone dtn),
        fun _ _ => hone _ rfl⟩
  | true =>
      simp only [Bool.not_true, Bool.false_eq_true, if_false, wp_pure]
      rw [wp_bind, Serve.wp_read]
      refine ⟨fun dtn hdtn => ?_, fun _ _ => hnil⟩
      rw [wp_bind, Serve.wp_read]
      refine ⟨fun path hpath => ?_, fun _ _ => hnil⟩
      by_cases hempty : path = ""
      · rw [if_pos hempty]
        exact hone _ rfl
      · have htopic := (hno dtnId dtn path hid hdtn hpath).resolve_left hempty
        rw [if_neg hempty, wp_bind, Serve.wp_rpc]
        exact ⟨fun hne => absurd htopic hne, fun _ => hnil⟩

theorem diskOnAnswer_iff :
    DiskOnAnswer site params props outcomes
      ↔ DiskCoded site params outcomes := by
  constructor
  · intro hd dtnId dtn path hid hdtn hpath hne htopic
    by_contra hcoded
    have hend := dtnInfoEnd_asked site params props outcomes hid hdtn hpath
      hne htopic
    obtain ⟨res, hres⟩ :=
      diskAnswer_of_not_coded (site.properties dtn.addr) hcoded
    rw [hres] at hend
    have hsent : (props, res) ∈ (dtnInfoEnd site params props outcomes).sent :=
      hend ▸ List.mem_singleton_self _
    obtain ⟨k, queue, rid, p, hk, hcall⟩ := hd _ hsent
      ((diskAnswer_eq_ok hres).2 (codeOf_of_not_coded hcoded))
    rw [hend] at hcall
    cases k with
    | zero => exact hcoded hk.coded
    | succ k => cases hcall
  · intro hc
    by_cases hask : ∃ dtnId dtn path, textOf params "dtn" = .ok dtnId
        ∧ site.look (RGraph.getDtnNode dtnId) = .ok dtn
        ∧ textOf params "path" = .ok path ∧ path ≠ ""
        ∧ RpcClient.topicOf dtn.data.queue ≠ "rpc/"
    · obtain ⟨dtnId, dtn, path, hid, hdtn, hpath, hne, htopic⟩ := hask
      have hend := dtnInfoEnd_asked site params props outcomes hid hdtn hpath
        hne htopic
      unfold DiskOnAnswer
      rw [hend]
      intro res hmem hdisk
      cases hres : diskAnswer (site.properties dtn.addr) (outcomes 0) with
      | error e =>
          rw [hres] at hmem
          cases hmem
      | ok v =>
          rw [hres] at hmem
          obtain rfl := List.mem_singleton.1 hmem
          have hcode := (diskAnswer_eq_ok hres).1 hdisk
          exact ⟨0, _, _, _,
            (hc dtnId dtn path hid hdtn hpath hne htopic).succeeds hcode,
            rfl⟩
    · intro res hmem hdisk
      have hno := dtnInfoEnd_not_asked site params props outcomes
        (fun dtnId dtn path hid hdtn hpath => by
          by_contra hne
          obtain ⟨hne, htopic⟩ := not_or.1 hne
          exact hask ⟨dtnId, dtn, path, hid, hdtn, hpath, hne, htopic⟩)
        res hmem
      rw [hno] at hdisk
      cases hdisk

-- ======================================================== get_total_size

/-- What the loop makes of a file, given the reply to its request: a
size, a refusal, or an exception. -/
def examine (file reply : Json) : Except String (Option Json) := do
  let fileid ← file.asString
  match split fileid '|' with
  | [_, host, store, _] =>
      let dnode ← expandingDtn site (host ++ "|" ++ store)
      if RpcClient.topicOf dnode.data.queue = "rpc/" then
        throw "RpcClient::call() empty target not allowed"
      else sizeEntry fileid reply
  | _ => pure none

/-- The entry is about the file of a request. -/
def AsksFor (v : Json) (call : String × Json) : Prop :=
  ∃ fileid rid path, v.get "id" = .ok (.str fileid)
    ∧ (split fileid '|')[3]? = some path
    ∧ call.2 = expandRequest rid path

/-- The loop found the sizes `vs` for its first files, by the first of
the calls it made. -/
structure Went (files : List Json) (replies : Nat → Json) (vs : List Json)
    (calls : List (String × Json)) : Prop where
  sized : ∀ (j : Nat) (v : Json), vs[j]? = some v →
    ∃ file, files[j]? = some file
      ∧ examine site file (replies j) = .ok (some v)
  asked : ∀ (j : Nat) (v : Json), vs[j]? = some v →
    ∃ call, calls[j]? = some call ∧ AsksFor v call

theorem Went.nil (files : List Json) (replies : Nat → Json)
    (calls : List (String × Json)) : Went site files replies [] calls where
  sized j v h := by cases h
  asked j v h := by cases h

theorem Went.cons {file v : Json} {files vs : List Json}
    {replies : Nat → Json} {call : String × Json}
    {calls : List (String × Json)}
    (hfile : examine site file (replies 0) = .ok (some v))
    (hcall : AsksFor v call)
    (h : Went site files (fun j => replies (j + 1)) vs calls) :
    Went site (file :: files) replies (v :: vs) (call :: calls) where
  sized j x hx := by
    cases j with
    | zero =>
        injection hx with hx
        subst hx
        exact ⟨file, rfl, hfile⟩
    | succ j => exact h.sized j x hx
  asked j x hx := by
    cases j with
    | zero =>
        injection hx with hx
        subst hx
        exact ⟨call, rfl, hcall⟩
    | succ j => exact h.asked j x hx

/-- How the loop ends after the sizes `vs`: with its list, at a file it
refuses, or at one that it throws at. -/
inductive SizesEnd (files : List Json) (replies : Nat → Json)
    (sizes vs : List Json) (t : Session) :
    EStateM.Result String Session Json → Prop
  | all : files.length = vs.length →
      SizesEnd files replies sizes vs t (.ok (sizesOf (sizes ++ vs)) t)
  | refused {file : Json} {e : String} : files[vs.length]? = some file →
      examine site file (replies vs.length) = .ok none →
      SizesEnd files replies sizes vs t (.ok (sizesFailed (sizes ++ vs) e) t)
  | thrown {file : Json} {e : String} : files[vs.length]? = some file →
      examine site file (replies vs.length) = .error e →
      SizesEnd files replies sizes vs t (.error e t)

theorem SizesEnd.cons {file v : Json} {files sizes vs : List Json}
    {replies : Nat → Json} {t : Session}
    {r : EStateM.Result String Session Json}
    (h : SizesEnd site files (fun j => replies (j + 1)) (sizes ++ [v]) vs t r) :
    SizesEnd site (file :: files) replies sizes (v :: vs) t r := by
  have happ : sizes ++ [v] ++ vs = sizes ++ v :: vs := by simp
  cases h with
  | all hlen =>
      rw [happ]
      exact .all (congrArg (· + 1) hlen)
  | refused hfile he =>
      rw [happ]
      exact .refused hfile he
  | thrown hfile he => exact .thrown hfile he

theorem sizeEntry_eq_some {fileid : String} {reply v : Json}
    (h : sizeEntry fileid reply = .ok (some v)) :
    codeOf reply = .ok 0 ∧ v.get "id" = .ok (.str fileid) := by
  obtain ⟨code, hcode, h⟩ := Stateful.bind_eq_ok.1 h
  by_cases h0 : code = 0
  · rw [if_neg (not_not.2 h0)] at h
    obtain ⟨total, _, h⟩ := Stateful.bind_eq_ok.1 h
    obtain ⟨bytes, _, h⟩ := Stateful.bind_eq_ok.1 h
    obtain ⟨files, _, h⟩ := Stateful.bind_eq_ok.1 h
    injection h with h
    injection h with h
    subst h
    exact ⟨h0 ▸ hcode, by simp [Json.object, Json.lookup_assign]⟩
  · rw [if_pos h0] at h
    cases h

/-- A file that got a size had a reply whose code read as 0. -/
theorem codeOf_of_examine {file reply v : Json}
    (h : examine site file reply = .ok (some v)) : codeOf reply = .ok 0 := by
  obtain ⟨fileid, _, h⟩ := Stateful.bind_eq_ok.1 h
  split at h
  · obtain ⟨_, _, h⟩ := Stateful.bind_eq_ok.1 h
    split at h
    · cases h
    · exact (sizeEntry_eq_some h).1
  · cases h

theorem examine_four {file reply : Json} {fileid a host store path : String}
    (hid : file.asString = .ok fileid)
    (hs : split fileid '|' = [a, host, store, path]) :
    examine site file reply = (do
      let dnode ← expandingDtn site (host ++ "|" ++ store)
      if RpcClient.topicOf dnode.data.queue = "rpc/" then
        throw "RpcClient::call() empty target not allowed"
      else sizeEntry fileid reply) := by
  unfold examine
  rw [hid]
  simp only [bind, Except.bind, hs]

theorem totalSizes_four {file : Json} {files sizes : List Json}
    {s : Session} {fileid a host store path : String}
    (hid : file.asString = .ok fileid)
    (hs : split fileid '|' = [a, host, store, path]) :
    totalSizes site (file :: files) sizes s = (do
      let dnode ← Serve.read (expandingDtn site (host ++ "|" ++ store))
      let filesize ← Serve.rpc dnode.data.queue
        (expandRequest dnode.data.rid path)
      match ← Serve.read (sizeEntry fileid filesize) with
      | none => pure (sizesFailed sizes "error at expanding the files")
      | some v => totalSizes site files (sizes ++ [v])) s := by
  rw [totalSizes, Serve.read_bind_ok hid]
  revert hs
  generalize split fileid '|' = pieces
  intro hs
  subst hs
  rfl

theorem examine_other {file reply : Json} {fileid : String}
    (hid : file.asString = .ok fileid)
    (hs : ¬ ∃ a host store path, split fileid '|' = [a, host, store, path]) :
    examine site file reply = .ok none := by
  unfold examine
  rw [hid]
  change (match split fileid '|' with | [_, host, store, _] => _ | _ => _) = _
  split
  · next a host store path h => exact absurd ⟨a, host, store, path, h⟩ hs
  · rfl

theorem totalSizes_other {file : Json} {files sizes : List Json}
    {s : Session} {fileid : String} (hid : file.asString = .ok fileid)
    (hs : ¬ ∃ a host store path, split fileid '|' = [a, host, store, path]) :
    totalSizes site (file :: files) sizes s
      = .ok (sizesFailed sizes "invalid parameters") s := by
  rw [totalSizes, Serve.read_bind_ok hid]
  cases hsp : split fileid '|' with
  | nil => rfl
  | cons a l =>
      rw [hsp] at hs
      obtain _ | ⟨host, _ | ⟨store, _ | ⟨path, _ | ⟨x, l⟩⟩⟩⟩ := l
      · rfl
      · rfl
      · rfl
      · exact absurd ⟨a, host, store, path, rfl⟩ hs
      · rfl

theorem SizesEnd.refused_first {file : Json} {files sizes : List Json}
    {replies : Nat → Json} {t : Session} (e : String)
    (h : examine site file (replies 0) = .ok none) :
    SizesEnd site (file :: files) replies sizes [] t
      (.ok (sizesFailed sizes e) t) := by
  have hend : SizesEnd site (file :: files) replies sizes [] t
      (.ok (sizesFailed (sizes ++ []) e) t) := .refused rfl h
  rw [List.append_nil] at hend
  exact hend

/-- One turn of the loop: it ends at the file, or it finds a size by one
call and goes on. -/
theorem totalSizes_step (file : Json) (files sizes : List Json)
    (s : Session) (replies : Nat → Json)
    (hr : replies 0 = s.outcomes s.calls.length) :
    (∃ calls, SizesEnd site (file :: files) replies sizes []
        { s with calls := s.calls ++ calls }
        (totalSizes site (file :: files) sizes s))
    ∨ ∃ v call, examine site file (replies 0) = .ok (some v)
      ∧ AsksFor v call
      ∧ totalSizes site (file :: files) sizes s
        = totalSizes site files (sizes ++ [v])
          { s with calls := s.calls ++ [call] } := by
  have hs0 : { s with calls := s.calls ++ [] } = s := by
    rw [List.append_nil]
  cases hid : file.asString with
  | error e =>
      refine .inl ⟨[], ?_⟩
      rw [totalSizes, Serve.read_bind_error hid, hs0]
      refine .thrown rfl ?_
      unfold examine
      rw [hid]
      rfl
  | ok fileid =>
      by_cases hfour : ∃ a host store path,
          split fileid '|' = [a, host, store, path]
      · obtain ⟨a, host, store, path, hs⟩ := hfour
        rw [totalSizes_four site hid hs]
        cases hd : expandingDtn site (host ++ "|" ++ store) with
        | error e =>
            refine .inl ⟨[], ?_⟩
            rw [Serve.read_bind_error rfl, hs0]
            refine .thrown rfl ?_
            rw [examine_four site hid hs, hd]
            rfl
        | ok dnode =>
            rw [Serve.read_bind_ok rfl]
            have hfile : examine site file (replies 0)
                = (do
                  let dnode ← Except.ok dnode
                  if RpcClient.topicOf dnode.data.queue = "rpc/" then
                    throw "RpcClient::call() empty target not allowed"
                  else sizeEntry fileid (s.outcomes s.calls.length)) := by
              rw [examine_four site hid hs, hd, hr]
            by_cases htopic : RpcClient.topicOf dnode.data.queue = "rpc/"
            · refine .inl ⟨[], ?_⟩
              rw [Serve.rpc_bind_error htopic, hs0]
              exact .thrown rfl (hfile.trans (if_pos htopic))
            · have hex : examine site file (replies 0)
                  = sizeEntry fileid (s.outcomes s.calls.length) :=
                hfile.trans (if_neg htopic)
              rw [Serve.rpc_bind htopic]
              cases hv : sizeEntry fileid (s.outcomes s.calls.length) with
              | error e =>
                  refine .inl ⟨[(dnode.data.queue,
                    expandRequest dnode.data.rid path)], ?_⟩
                  rw [Serve.read_bind_error rfl]
                  exact .thrown rfl (hex.trans hv)
              | ok v? =>
                  rw [Serve.read_bind_ok rfl]
                  cases v? with
                  | none =>
                      exact .inl ⟨[_], .refused_first site _ (hex.trans hv)⟩
                  | some v =>
                      refine .inr ⟨v, _, hex.trans hv, ?_, rfl⟩
                      exact ⟨fileid, dnode.data.rid, path,
                        (sizeEntry_eq_some hv).2, by rw [hs]; rfl, rfl⟩
      · refine .inl ⟨[], ?_⟩
        rw [totalSizes_other site hid hfour, hs0]
        exact .refused_first site _ (examine_other site hid hfour)

/-- The run of the loop, from any point of it. -/
theorem totalSizes_run (files sizes : List Json) (s : Session)
    (replies : Nat → Json)
    (hr : ∀ j, replies j = s.outcomes (s.calls.length + j)) :
    ∃ vs calls, Went site files replies vs calls
      ∧ SizesEnd site files replies sizes vs
        { s with calls := s.calls ++ calls }
        (totalSizes site files sizes s) := by
  induction files generalizing sizes s replies with
  | nil =>
      refine ⟨[], [], .nil site _ _ _, ?_⟩
      have hend : SizesEnd site [] replies sizes [] s
          (.ok (sizesOf (sizes ++ [])) s) := .all rfl
      rw [List.append_nil] at hend ⊢
      exact hend
  | cons file files ih =>
      obtain ⟨calls, hend⟩ | ⟨v, call, hex, hask, hrun⟩ :=
        totalSizes_step site file files sizes s replies (hr 0)
      · exact ⟨[], calls, .nil site _ _ _, hend⟩
      · obtain ⟨vs, calls, hwent, hend⟩ := ih (sizes ++ [v])
          { s with calls := s.calls ++ [call] } (fun j => replies (j + 1))
          (by
            intro j
            have hlen : (s.calls ++ [call]).length + j
                = s.calls.length + (j + 1) := by
              rw [List.length_append, List.length_singleton]
              omega
            rw [hr, hlen])
        refine ⟨v :: vs, call :: calls, hwent.cons site hex hask, ?_⟩
        have hcalls : s.calls ++ call :: calls
            = s.calls ++ [call] ++ calls := List.append_cons ..
        rw [hrun, hcalls]
        exact hend.cons site

/-- The session of `get_total_size`, at its end. -/
def totalSizeEnd : Session :=
  Stateful.after (getTotalSize site params (Serve.sendResponse props))
    { outcomes := outcomes }

/-- `get_total_size` returns a size only for a file whose request the
DTN answered with code 0: the `i`-th size for the `i`-th request. -/
def SizedOnAnswer : Prop :=
  ∀ res ∈ (totalSizeEnd site params props outcomes).sent, ∀ sizes,
    res.2.get "sizes" = .ok (.arr sizes) →
    ∀ (i : Nat) (v : Json), sizes[i]? = some v →
      ∃ call, (totalSizeEnd site params props outcomes).calls[i]? = some call
        ∧ AsksFor v call ∧ Succeeds (outcomes i)

/-- The loop gets over the first `k` files: each of them gets a size. -/
def SizesFirst (k : Nat) : Prop :=
  ∀ j < k, ∃ file v, params.items[j]? = some file
    ∧ examine site file (outcomes j) = .ok (some v)

/-- A file that gets a size has a reply with a code, unless the loop
throws at a later file and nothing is returned at all. -/
def SizesCoded : Prop :=
  ∀ k, SizesFirst site params outcomes (k + 1) → Coded (outcomes k)
    ∨ ∃ m file e, k < m ∧ SizesFirst site params outcomes m
      ∧ params.items[m]? = some file
      ∧ examine site file (outcomes m) = .error e

theorem get_sizesOf {sizes vs : List Json} :
    (sizesOf vs).get "sizes" = .ok (.arr sizes) ↔ vs = sizes := by
  simp [sizesOf, Json.object, Json.lookup_assign]

theorem get_sizesFailed {sizes vs : List Json} {e : String} :
    (sizesFailed vs e).get "sizes" = .ok (.arr sizes) ↔ vs = sizes := by
  simp [sizesFailed, Json.object, Json.lookup_assign]

/-- How the command ends: it sends the sizes of the first files, which
are all or end at a refused one, or it throws and sends nothing. -/
theorem totalSizeEnd_run :
    ∃ vs calls, Went site params.items outcomes vs calls
      ∧ (totalSizeEnd site params props outcomes).calls = calls
      ∧ (((∀ file, params.items[vs.length]? = some file →
            examine site file (outcomes vs.length) = .ok none)
          ∧ ∃ res, (∀ sizes, res.get "sizes" = .ok (.arr sizes)
              ↔ vs = sizes)
            ∧ (totalSizeEnd site params props outcomes).sent = [(props, res)])
        ∨ ((totalSizeEnd site params props outcomes).sent = []
          ∧ ∃ file e, params.items[vs.length]? = some file
            ∧ examine site file (outcomes vs.length) = .error e)) := by
  obtain ⟨vs, calls, hwent, hend⟩ := totalSizes_run site params.items []
    { outcomes := outcomes } outcomes fun j => congrArg outcomes
      (Nat.zero_add j).symm
  refine ⟨vs, calls, hwent, ?_⟩
  have hlast : totalSizeEnd site params props outcomes
      = match totalSizes site params.items [] { outcomes := outcomes } with
        | .ok res t => { t with sent := t.sent ++ [(props, res)] }
        | .error _ t => t := by
    unfold totalSizeEnd getTotalSize Stateful.after
    simp only [bind, EStateM.bind]
    cases totalSizes site params.items [] { outcomes := outcomes } <;> rfl
  generalize totalSizes site params.items [] { outcomes := outcomes } = r
    at hend hlast
  cases hend with
  | all hlen =>
      rw [hlast]
      refine ⟨List.nil_append calls, .inl ⟨fun file hfile => ?_, _,
        fun sizes => get_sizesOf, rfl⟩⟩
      rw [List.getElem?_eq_none (Nat.le_of_eq hlen)] at hfile
      cases hfile
  | refused hfile hex =>
      rw [hlast]
      refine ⟨List.nil_append calls, .inl ⟨fun file hfile' => ?_, _,
        fun sizes => get_sizesFailed, rfl⟩⟩
      rw [hfile] at hfile'
      injection hfile' with hfile'
      exact hfile' ▸ hex
  | thrown hfile hex =>
      rw [hlast]
      exact ⟨List.nil_append calls, .inr ⟨rfl, _, _, hfile, hex⟩⟩

theorem sizedOnAnswer_iff :
    SizedOnAnswer site params props outcomes
      ↔ SizesCoded site params outcomes := by
  obtain ⟨vs, calls, hwent, hcalls, hend⟩ :=
    totalSizeEnd_run site params props outcomes
  -- the first files are those that got a size
  have hfirst : ∀ m ≤ vs.length, SizesFirst site params outcomes m := by
    intro m hm j hj
    have hlt : j < vs.length := Nat.lt_of_lt_of_le hj hm
    obtain ⟨file, hfile, hex⟩ := hwent.sized j _
      (List.getElem?_eq_getElem hlt)
    exact ⟨file, _, hfile, hex⟩
  have hmost : ∀ m, SizesFirst site params outcomes m → m ≤ vs.length := by
    intro m hm
    by_contra hlt
    obtain ⟨file, v, hfile, hex⟩ := hm vs.length (Nat.lt_of_not_le hlt)
    obtain ⟨hstop, _⟩ | ⟨_, file', e, hfile', hex'⟩ := hend
    · rw [hstop file hfile] at hex
      cases hex
    · rw [hfile] at hfile'
      injection hfile' with hfile'
      rw [← hfile', hex] at hex'
      cases hex'
  constructor
  · intro hs k hk
    obtain ⟨_, res, hsizes, hsent⟩ | ⟨_, file, e, hfile, hex⟩ := hend
    · obtain ⟨_, _, _, hk⟩ := hs (props, res)
        (hsent ▸ List.mem_singleton_self _) vs ((hsizes vs).2 rfl) k _
        (List.getElem?_eq_getElem (hmost (k + 1) hk))
      exact .inl hk.coded
    · exact .inr ⟨vs.length, file, e, hmost (k + 1) hk,
        hfirst _ (Nat.le_refl _), hfile, hex⟩
  · intro hc res hres sizes hsizes i v hv
    obtain ⟨hstop, res', hsizes', hsent⟩ | ⟨hsent, _⟩ := hend
    · rw [hsent] at hres
      obtain rfl := List.mem_singleton.1 hres
      obtain rfl := (hsizes' sizes).1 hsizes
      have hi : i < vs.length := (List.getElem?_eq_some_iff.1 hv).1
      obtain ⟨call, hcall, hask⟩ := hwent.asked i v hv
      obtain ⟨file, _, hex⟩ := hwent.sized i v hv
      refine ⟨call, hcalls ▸ hcall, hask, ?_⟩
      obtain hcoded | ⟨m, file', e, _, hm, hfile', hex'⟩ :=
        hc i (hfirst (i + 1) hi)
      · exact hcoded.succeeds (codeOf_of_examine site hex)
      · -- the loop would have thrown at that file
        obtain hlt | rfl := Nat.lt_or_eq_of_le (hmost m hm)
        · obtain ⟨file'', hfile'', hex''⟩ := hwent.sized m _
            (List.getElem?_eq_getElem hlt)
          rw [hfile'] at hfile''
          injection hfile'' with hfile''
          rw [← hfile'', hex'] at hex''
          cases hex''
        · rw [hstop file' hfile'] at hex'
          cases hex'
    · rw [hsent] at hres
      cases hres

end commands

-- =============================================================== together

/-- A missing answer is never taken for a success, exactly when the first
ping taken for one succeeded, every file that is sized (and returned) had
a reply with a code, and so had the request about the disk. -/
theorem success_iff_answered (h : HandlerId) (o : Oracle World Call Reply)
    (src dst : Dtn) (w : World) (site : SiteView)
    (files : Json) (sizeProps : RpcProps) (sizeOutcomes : Nat → Json)
    (info : Json) (infoProps : RpcProps) (infoOutcomes : Nat → Json) :
    (VerifiedOnAnswer h o src dst w
        ∧ SizedOnAnswer site files sizeProps sizeOutcomes
        ∧ DiskOnAnswer site info infoProps infoOutcomes)
      ↔ FirstPingAnswered h o src dst w
        ∧ SizesCoded site files sizeOutcomes
        ∧ DiskCoded site info infoOutcomes := by
  rw [verifiedOnAnswer_iff, sizedOnAnswer_iff, diskOnAnswer_iff]

/-- A DTN with a disk, registered by one agent. -/
def diskSite : SiteView where
  graph := after (ResourceManager.addModules "rpc/agent"
      [{ id := "dtn1", type := .dtn, storages := [{ id := "host|disk" }] },
        { id := "host|disk", type := .localStorage }])
    (after ResourceManager.init {})
  properties _ := .obj []

/-- The DTN does not reply to the server that pings through it. -/
def mutePings : Oracle World Call Reply := fun w e => match e with
  | .icmpPing .. => (⟨200, none, "rpc call timed out"⟩ : PingAnswer)
  | e => plainOracle true true w e

/-- Replies that time out verify a path, give a file a size and report
the usage of a disk. -/
theorem timeout_taken_for_success :
    ¬ VerifiedOnAnswer .schedule mutePings (publicDtn "dtn1")
        (publicDtn "dtn2") (newWorld [])
    ∧ ¬ SizedOnAnswer diskSite (.arr [.str "site|host|disk|/data"])
        ⟨"corr", "rpc-res/client"⟩
        (fun _ => RpcClient.timeoutReply (expandRequest "dtn1" "/data"))
    ∧ ¬ DiskOnAnswer diskSite
        (.object [("dtn", .str "dtn1"), ("path", .str "/data")])
        ⟨"corr", "rpc-res/client"⟩
        (fun _ => RpcClient.timeoutReply (diskUsageRequest "dtn1" "/data")) := by
  have hnot : ∀ request, ¬ Coded (RpcClient.timeoutReply request) := by
    intro request hcoded
    have hnull := hcoded .null (by
      simp [RpcClient.timeoutReply, Json.object, Json.lookup_assign,
        Json.lookup])
    cases hnull
  have htopic : RpcClient.topicOf "rpc/agent" ≠ "rpc/" := by decide +kernel
  refine ⟨fun hv => ?_, fun hs => ?_, fun hd => ?_⟩
  · have hfirst := (verifiedOnAnswer_iff ..).1 hv 0 (by decide)
      (fun j hj => absurd hj (Nat.not_lt_zero j)) rfl
    have hcode := hfirst.2
    cases hcode
  · obtain hcoded | ⟨m, file, e, hm, _, hfile, _⟩ :=
      (sizedOnAnswer_iff ..).1 hs 0 (fun j hj => by
        obtain rfl := Nat.lt_one_iff.1 hj
        have hfour : examine diskSite (.str "site|host|disk|/data")
            (RpcClient.timeoutReply (expandRequest "dtn1" "/data")) = _ :=
          examine_four diskSite rfl rfl
        exact ⟨_, _, rfl, hfour.trans (if_neg htopic)⟩)
    · exact hnot _ hcoded
    · cases m with
      | zero => exact absurd hm (Nat.lt_irrefl 0)
      | succ m => cases hfile
  · exact hnot _ ((diskOnAnswer_iff ..).1 hd "dtn1" _ "/data" rfl rfl rfl
      (by decide) htopic)

end BigDataExpress

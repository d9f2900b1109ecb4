/-
Correlation of RPC calls and replies: who owns an entry of the promise
table.

# Where the code falls short

A reply that is handled while the wait of its call runs out makes the
client erase one entry twice (`call` uses an iterator it saved before);
a call with an empty target throws and leaves its entry; a verbose call
takes the value from its future twice and throws; a server with
registered handlers replies on a topic nobody listens to. `Orderly` are
the rules that exclude these four, and nothing else.

# The invariant

For each correlation id, `RpcState.entry` collects what the state says
about it. An id goes from no entry over an entry without a value to
either an entry with a value, which `on_msg` set and is about to erase,
or to an erased one. `CallStage.At` and `ListenStage.At` say which of
these a thread can rely on at each of its stages. A step changes the
entry of one id, so the threads of other ids are not touched, and what
is left to show is how the call and the listener of one id get along
(`CallStage.At.setValue`, `CallStage.At.dropped`).
-/
import BigDataExpress.Utils.Rpc
import Mathlib.Data.List.Nodup

namespace BigDataExpress

open Interact

-- =============================================================== entries

/-- What the state says about a correlation id. -/
@[ext] structure RpcEntry where
  inTable : Bool
  value : Option Json
  removals : Nat
  ended : Option CallEnd
  expired : Bool

namespace RpcEntry

/-- An id that was not used. -/
def unused : RpcEntry := ⟨false, none, 0, none, false⟩

/-- In the table and never removed, or removed once, with a value. -/
def Pending (e : RpcEntry) : Prop :=
  (e.inTable = true ∧ e.removals = 0)
    ∨ (e.inTable = false ∧ e.removals = 1 ∧ e.value ≠ none)

end RpcEntry

/-- All that concerns one call. -/
def RpcState.entry (w : RpcState) (c : String) : RpcEntry where
  inTable := decide (c ∈ w.promises)
  value := w.values c
  removals := w.removed.count c
  ended := w.ends c
  expired := decide (c ∈ w.expired)

namespace RpcState

/-- The states differ in what they say about `c` only. -/
def Changes (w : RpcState) (c : String) (e : RpcEntry) (w' : RpcState) :
    Prop := w'.entry = Function.update w.entry c e

/-- The call is changed as said. -/
theorem Changes.self {w w' : RpcState} {c : String} {e : RpcEntry}
    (h : w.Changes c e w') : w'.entry c = e := by
  rw [h, Function.update_self]

/-- The others are not. -/
theorem Changes.other {w w' : RpcState} {c d : String} {e : RpcEntry}
    (h : w.Changes c e w') (hne : d ≠ c) : w'.entry d = w.entry d := by
  rw [h, Function.update_of_ne hne]

/-- And the other way round. -/
theorem changes_of {w w' : RpcState} {c : String} {e : RpcEntry}
    (he : w'.entry c = e) (h : ∀ d, d ≠ c → w'.entry d = w.entry d) :
    w.Changes c e w' := by
  unfold Changes
  funext d
  by_cases hd : d = c
  · rw [hd, Function.update_self, he]
  · rw [Function.update_of_ne hd, h d hd]

/-- An emplace puts the call in the table. -/
theorem changes_emplace (w : RpcState) (c : String) :
    w.Changes c { w.entry c with inTable := true }
      { w with promises := c :: w.promises } := by
  refine changes_of ?_ fun d hd => ?_
  · simp [entry]
  · simp [entry, hd]

/-- An erasure takes it out, and counts. -/
theorem changes_erase {w : RpcState} (hn : w.promises.Nodup) (c : String) :
    w.Changes c { w.entry c with
        inTable := false, removals := (w.entry c).removals + 1 }
      { w with promises := w.promises.erase c,
               removed := c :: w.removed } := by
  refine changes_of ?_ fun d hd => ?_
  · simp [entry, hn.mem_erase_iff]
  · have hne : c ≠ d := fun h => hd h.symm
    simp [entry, List.mem_erase_of_ne hd, hne]

/-- A value is set for one call. -/
theorem changes_setValue (w : RpcState) (c : String) (v : Json) :
    w.Changes c { w.entry c with value := some v }
      { w with values := Function.update w.values c (some v) } := by
  refine changes_of ?_ fun d hd => ?_
  · simp [entry]
  · simp [entry, Function.update_of_ne hd]

/-- A call ends. -/
theorem changes_finish (w : RpcState) (c : String) (e : CallEnd) :
    w.Changes c { w.entry c with ended := some e }
      { w with ends := Function.update w.ends c (some e) } := by
  refine changes_of ?_ fun d hd => ?_
  · simp [entry]
  · simp [entry, Function.update_of_ne hd]

/-- A call has waited long enough. -/
theorem changes_expire (w : RpcState) (c : String) :
    w.Changes c { w.entry c with expired := true }
      { w with expired := c :: w.expired } := by
  refine changes_of ?_ fun d hd => ?_
  · simp [entry]
  · simp [entry, hd]

/-- A request with this id was published. -/
def Asked (w : RpcState) (c : String) : Prop :=
  ∃ q ∈ w.requests, q.props.correlationId = c

end RpcState

-- ================================================================ stages

/-- Where a call is. -/
inductive CallStage
  | entering
  | registered
  | waiting
  /-- the wait timed out -/
  | expired
  /-- the entry is erased after the timeout -/
  | lapsed
  /-- the wait found a value -/
  | ready
  | got (v : Json)

/-- Where `on_msg` is. -/
inductive ListenStage
  | arriving
  /-- the entry is found -/
  | found
  /-- the value is set -/
  | valued
  | leaving

/-- What a call at this stage knows of its entry; `busy` says that a
reply to it is being handled, and `asked` that its request is out. -/
def CallStage.At (e : RpcEntry) (busy asked : Prop) : CallStage → Prop
  | entering => e = .unused ∧ ¬ asked
  | registered => e = { RpcEntry.unused with inTable := true } ∧ ¬ asked
  | waiting => e.Pending ∧ e.ended = none ∧ e.expired = false
  | expired => e = { RpcEntry.unused with inTable := true, expired := true }
      ∧ ¬ busy
  | lapsed => e.inTable = false ∧ e.removals = 1 ∧ e.ended = none
  | ready => e.Pending ∧ e.ended = none ∧ e.value ≠ none
  | got v => e.Pending ∧ e.ended = none ∧ e.value = some v

/-- What `on_msg` at this stage knows of the entry of its reply. -/
def ListenStage.At (e : RpcEntry) (body : Json) : ListenStage → Prop
  | arriving => e.inTable = true → e.value = none ∧ e.expired = false
  | found => e.inTable = true ∧ e.value = none ∧ e.expired = false
  | valued => e.inTable = true ∧ e.value = some body
  | leaving => e.inTable = false

/-- The thread of a call with its arguments or of `on_msg` at a reply;
`returned` and `left` have nothing left to do. -/
inductive RpcPhase
  | calling (c : String) (args : CallArgs) (s : CallStage)
  | returned (c : String)
  | listening (m : RpcReply) (s : ListenStage)
  | left

namespace RpcPhase

/-- Where a thread stands, as far as the state shows it. -/
def At (w : RpcState) : RpcPhase → Prop
  | calling c args s => (c, args) ∈ w.calls
      ∧ s.At (w.entry c) (w.handling = some c) (w.Asked c)
  | returned _ => True
  | listening m s => m ∈ w.delivered ∧ w.handling = some m.corrId
      ∧ s.At (w.entry m.corrId) m.body
  | left => w.handling = none

/-- The phase is one of the thread. -/
def Of : RpcPhase → RpcThread → Prop
  | calling c _ _, t => t = .call c
  | returned c, t => t = .call c
  | listening _ _, t => t = .listen
  | left, t => t = .listen

/-- The thread has nothing left to do. -/
def Stops : RpcPhase → Prop
  | returned _ | left => True
  | _ => False

end RpcPhase

-- ================================================================= moves

/-- What one action can do. -/
inductive RpcMove (queue : String) :
    RpcPhase → RpcState → RpcPhase → RpcState → Prop
  | emplace {c : String} {args : CallArgs} {w : RpcState} :
      RpcMove queue (.calling c args .entering) w
        (.calling c args .registered)
        { w with promises := c :: w.promises }
  | publish {c : String} {args : CallArgs} {w : RpcState} {q : RpcRequest} :
      q.props = ⟨c, queue⟩ →
      RpcMove queue (.calling c args .registered) w
        (.calling c args .waiting) { w with requests := w.requests ++ [q] }
  | expire {c : String} {args : CallArgs} {w : RpcState} :
      w.values c = none → w.handling ≠ some c →
      RpcMove queue (.calling c args .waiting) w (.calling c args .expired)
        { w with expired := c :: w.expired }
  | lapse {c : String} {args : CallArgs} {w : RpcState} :
      RpcMove queue (.calling c args .expired) w (.calling c args .lapsed)
        { w with promises := w.promises.erase c, removed := c :: w.removed }
  | timeout {c : String} {args : CallArgs} {w : RpcState} :
      RpcMove queue (.calling c args .lapsed) w (.returned c)
        { w with
          ends := Function.update w.ends c
            (some (.returned (RpcClient.timeoutReply args.params))) }
  | wake {c : String} {args : CallArgs} {w : RpcState} :
      w.values c ≠ none →
      RpcMove queue (.calling c args .waiting) w (.calling c args .ready) w
  | get {c : String} {args : CallArgs} {w : RpcState} {v : Json} :
      w.values c = some v →
      RpcMove queue (.calling c args .ready) w (.calling c args (.got v)) w
  | answer {c : String} {args : CallArgs} {w : RpcState} {v : Json} :
      RpcMove queue (.calling c args (.got v)) w (.returned c)
        { w with ends := Function.update w.ends c (some (.returned v)) }
  | find {m : RpcReply} {w : RpcState} : m.corrId ∈ w.promises →
      RpcMove queue (.listening m .arriving) w (.listening m .found) w
  | unknown {m : RpcReply} {w : RpcState} : m.corrId ∉ w.promises →
      RpcMove queue (.listening m .arriving) w (.listening m .leaving) w
  | setValue {m : RpcReply} {w : RpcState} :
      RpcMove queue (.listening m .found) w (.listening m .valued)
        { w with values := Function.update w.values m.corrId (some m.body) }
  | drop {m : RpcReply} {w : RpcState} :
      RpcMove queue (.listening m .valued) w (.listening m .leaving)
        { w with promises := w.promises.erase m.corrId,
                 removed := m.corrId :: w.removed }
  | leave {m : RpcReply} {w : RpcState} :
      RpcMove queue (.listening m .leaving) w .left
        { w with handling := none }

-- ============================================================== programs

/-- The rules under which calls and replies are correlated: targets are
not empty; no reply comes in time for a verbose call; a reply to a call
is not at work when the wait of the call runs out, and not taken up
before the call has erased its entry; servers use the bypass mode. -/
def RpcRules.orderly : RpcRules where
  start args := RpcClient.topicOf args.target ≠ "rpc/"
  ready args := args.verbose = false
  expire w c := w.handling ≠ some c
  handle w c := ¬ (c ∈ w.expired ∧ c ∈ w.promises)
  server sv := sv.bypass = true

/-- The phases of the threads, as a rule for their moves. -/
def rpcPhases (queue : String) :
    Phases RpcState RpcThread Wait (fun _ => Bool) RpcPhase where
  pre s w := s.At w
  move _ := RpcMove queue
  stop := RpcPhase.Stops

/-- The program makes moves only, from this phase to the end. -/
abbrev RpcWalks (queue : String) (p : RpcProg Unit) (s : RpcPhase) : Prop :=
  p.Follows RpcRules.orderly.env (fun s w => s.At w) (RpcMove queue)
    (fun _ s' => s'.Stops) s

/-- A call is in the table if its entry says so. -/
theorem mem_promises {w : RpcState} {c : String} :
    c ∈ w.promises ↔ (w.entry c).inTable = true := by
  unfold RpcState.entry
  rw [decide_eq_true_iff]

/-- The last move of a call. -/
theorem finish_walks {queue c : String} {e : CallEnd} {s : RpcPhase}
    (h : ∀ w, s.At w → RpcMove queue s w (.returned c)
      { w with ends := Function.update w.ends c (some e) }) :
    RpcWalks queue (RpcClient.finish c e) s := by
  intro w hw
  exact ⟨.returned c, h w hw, trivial⟩

/-- The moves of an erasure, and what follows. -/
theorem erase_walks {queue c : String} {k : Unit → RpcProg Unit}
    {s : RpcPhase} (s' : RpcPhase) (hin : ∀ w, s.At w → (w.entry c).inTable = true)
    (h : ∀ w, RpcMove queue s w s'
      { w with promises := w.promises.erase c, removed := c :: w.removed })
    (hk : RpcWalks queue (k ()) s') :
    RpcWalks queue (RpcClient.erase c >>= k) s := by
  refine Prog.Follows.modify s' (fun w hw => ?_) hk
  rw [if_pos (mem_promises.2 (hin w hw))]
  exact h w

/-- What a call does after its wait. -/
theorem awaitReply_walks {queue c : String} {args : CallArgs} :
    RpcWalks queue (RpcClient.awaitReply c args)
      (.calling c args .waiting) := by
  refine Prog.Follows.ask fun w ready _ hadm => ?_
  obtain ⟨hready, hrule⟩ := hadm
  cases ready with
  | false =>
      have hnone : w.values c = none := by
        rwa [Bool.false_eq, Option.isSome_eq_false_iff,
          Option.isNone_iff_eq_none] at hready
      refine ⟨.calling c args .expired, .expire hnone hrule, ?_⟩
      refine erase_walks (.calling c args .lapsed) ?_ (fun w => .lapse)
        (finish_walks fun w _ => .timeout)
      intro w hw
      rw [hw.2.1]
  | true =>
      have hsome : w.values c ≠ none := by
        rw [Bool.true_eq, Option.isSome_iff_ne_none] at hready
        exact hready
      have hverbose : args.verbose = false := hrule
      refine ⟨.calling c args .ready, .wake hsome, ?_⟩
      rw [hverbose]
      refine Prog.Follows.read fun w hw => ?_
      obtain ⟨v, hv⟩ := Option.ne_none_iff_exists'.1 hw.2.2.2
      have hv' : w.values c = some v := hv
      refine ⟨.calling c args (.got v), .get hv', ?_⟩
      rw [hv']
      exact finish_walks fun w _ => .answer

/-- A call moves from entering on. -/
theorem call_walks {queue c : String} {args : CallArgs}
    (hstart : RpcClient.topicOf args.target ≠ "rpc/") :
    RpcWalks queue (RpcClient.call queue c args)
      (.calling c args .entering) := by
  intro w hw
  have hout : c ∉ w.promises := by
    rw [mem_promises, hw.2.1]
    decide
  refine ⟨.calling c args .registered, ?_, ?_⟩
  · change RpcMove queue _ w _ (if c ∈ w.promises then w
      else { w with promises := c :: w.promises })
    rw [if_neg hout]
    exact .emplace
  · have hfresh : decide (c ∉ w.promises) = true := decide_eq_true hout
    change RpcWalks queue (if !decide (c ∉ w.promises) then _ else _) _
    rw [hfresh]
    change RpcWalks queue (if RpcClient.topicOf args.target = "rpc/" then _
      else _) _
    rw [if_neg hstart]
    exact Prog.Follows.modify (.calling c args .waiting)
      (fun w _ => .publish rfl) awaitReply_walks

/-- The listener moves from the arrival on. -/
theorem onMsg_walks {queue : String} {m : RpcReply} :
    RpcWalks queue (RpcClient.onMsg m) (.listening m .arriving) := by
  refine Prog.Follows.read fun w hw => ?_
  by_cases hin : m.corrId ∈ w.promises
  · refine ⟨.listening m .found, .find hin, ?_⟩
    rw [decide_eq_true hin]
    refine Prog.Follows.modify (.listening m .valued) (fun w hw => ?_) ?_
    · obtain ⟨_, _, htable, hnone, _⟩ := hw
      rw [if_pos ⟨mem_promises.2 htable, hnone⟩]
      exact .setValue
    · refine erase_walks (.listening m .leaving) ?_ (fun w => .drop) ?_
      · exact fun w hw => hw.2.2.1
      · exact fun w _ => ⟨.left, .leave, trivial⟩
  · refine ⟨.listening m .leaving, .unknown hin, ?_⟩
    rw [decide_eq_false hin]
    exact fun w _ => ⟨.left, .leave, trivial⟩

-- ========================================================= the invariant

/-- What holds of the entry of every id: one in the table was not
removed, and if it has a value `on_msg` is about to remove it; none is
removed twice; a call that is over has its entry removed, or its value
set. -/
structure RpcEntry.Sane (e : RpcEntry) (busy : Prop) : Prop where
  table : e.inTable = true → e.removals = 0 ∧ (e.value ≠ none → busy)
  once : e.removals ≤ 1
  left : e.ended ≠ none → (e.inTable = false ∧ e.removals = 1)
    ∨ (e.inTable = true ∧ e.value ≠ none)

/-- What was sent, delivered and returned. -/
structure RpcMail (queue : String) (w : RpcState) : Prop where
  asked : ∀ c, w.Asked c → c ∈ w.calls.map Prod.fst
  replyTo : ∀ q ∈ w.requests, q.props.replyTo = queue
  replies : ∀ m ∈ w.replies, m.topic = queue ∧ w.Asked m.corrId
  delivered : ∀ m ∈ w.delivered, m ∈ w.replies
  values : ∀ c v, w.values c = some v →
    ∃ m ∈ w.delivered, m.corrId = c ∧ m.body = v
  ends : ∀ c e, w.ends c = some e → ∃ args, (c, args) ∈ w.calls
    ∧ (e = .returned (RpcClient.timeoutReply args.params)
      ∨ ∃ m ∈ w.delivered, m.corrId = c ∧ e = .returned m.body)
  handling : ∀ c, w.handling = some c → ∃ m ∈ w.delivered, m.corrId = c

/-- What holds in every state that is reached. -/
structure RpcInv (queue : String) (w : RpcState)
    (m : List (RpcThread × RpcPhase)) : Prop where
  nodup : w.promises.Nodup
  sound : w.fault = false
  sane : ∀ c, (w.entry c).Sane (w.handling = some c)
  unused : ∀ c, c ∉ w.calls.map Prod.fst → w.entry c = .unused
  mail : RpcMail queue w
  tags : (m.map Prod.fst).Nodup
  own : ∀ ts ∈ m, ts.2.Of ts.1
  at_ : ∀ ts ∈ m, ts.2.At w
  listens : w.handling ≠ none → RpcThread.listen ∈ m.map Prod.fst
  known : ∀ c, RpcThread.call c ∈ m.map Prod.fst → c ∈ w.calls.map Prod.fst

/-- A reply being handled is one to a request. -/
theorem RpcMail.asked_of_handling {queue c : String} {w : RpcState}
    (h : RpcMail queue w) (hc : w.handling = some c) : w.Asked c := by
  obtain ⟨m, hm, rfl⟩ := h.handling c hc
  exact (h.replies m (h.delivered m hm)).2

-- =========================================== how threads get along

/-- A value set for a call that waits. -/
theorem CallStage.At.setValue {e : RpcEntry} {busy asked : Prop}
    {s : CallStage} (h : s.At e busy asked) (hb : busy) (ha : asked)
    (ht : e.inTable = true) (hv : e.value = none) (v : Json) :
    s.At { e with value := some v } busy asked := by
  cases s with
  | entering => exact absurd ha h.2
  | registered => exact absurd ha h.2
  | waiting =>
      obtain ⟨hp, hend, hexp⟩ := h
      refine ⟨?_, hend, hexp⟩
      obtain hp | hp := hp
      · exact .inl hp
      · rw [ht] at hp
        cases hp.1
  | expired => exact absurd hb h.2
  | lapsed =>
      have hf := h.1
      rw [ht] at hf
      cases hf
  | ready => exact absurd hv h.2.2
  | got x =>
      have hx := h.2.2
      rw [hv] at hx
      cases hx

/-- An entry with a value erased by `on_msg`. -/
theorem CallStage.At.dropped {e : RpcEntry} {busy asked : Prop}
    {s : CallStage} (h : s.At e busy asked) (ha : asked)
    (ht : e.inTable = true) (hr : e.removals = 0) (hv : e.value ≠ none) :
    s.At { e with inTable := false, removals := e.removals + 1 } busy
      asked := by
  have hp : RpcEntry.Pending
      { e with inTable := false, removals := e.removals + 1 } :=
    .inr ⟨rfl, by rw [hr], hv⟩
  cases s with
  | entering => exact absurd ha h.2
  | registered => exact absurd ha h.2
  | waiting => exact ⟨hp, h.2⟩
  | expired =>
      rw [h.1] at hv
      exact absurd rfl hv
  | lapsed =>
      have hf := h.1
      rw [ht] at hf
      cases hf
  | ready => exact ⟨hp, h.2⟩
  | got x => exact ⟨hp, h.2⟩

/-- The end of the handling of a reply does not matter to a call. -/
theorem CallStage.At.left {e : RpcEntry} {busy busy' asked : Prop}
    {s : CallStage} (h : s.At e busy asked) (hb : busy' → busy) :
    s.At e busy' asked := by
  cases s with
  | expired => exact ⟨h.1, fun hb' => h.2 (hb hb')⟩
  | entering => exact h
  | registered => exact h
  | waiting => exact h
  | lapsed => exact h
  | ready => exact h
  | got x => exact h

/-- A step about `c` leaves the calls with other ids as they are. -/
theorem RpcPhase.At.calling_other {w w' : RpcState} {c d : String}
    {e : RpcEntry} {args : CallArgs} {s : CallStage}
    (h : (RpcPhase.calling d args s).At w) (hch : w.Changes c e w')
    (hne : d ≠ c) (hcalls : w'.calls = w.calls)
    (hhand : w'.handling = w.handling) (hasked : w'.Asked d ↔ w.Asked d) :
    (RpcPhase.calling d args s).At w' := by
  refine ⟨hcalls ▸ h.1, ?_⟩
  rw [hch.other hne, hhand, propext hasked]
  exact h.2

/-- A step of a call leaves the other threads as they are, if it does
not disturb the listener at a reply to the call. -/
theorem others_call {w w' : RpcState} {c : String} {e : RpcEntry}
    (hch : w.Changes c e w') (hcalls : w'.calls = w.calls)
    (hdel : w'.delivered = w.delivered) (hhand : w'.handling = w.handling)
    (hasked : ∀ d, d ≠ c → (w'.Asked d ↔ w.Asked d))
    (hlisten : w.handling = some c → ∀ (body : Json) (s : ListenStage),
      s.At (w.entry c) body → s.At e body)
    {t : RpcThread} {s : RpcPhase} (hof : s.Of t) (ht : t ≠ .call c)
    (h : s.At w) : s.At w' := by
  cases s with
  | returned d => trivial
  | left => exact hhand.trans h
  | calling d args s =>
      have hne : d ≠ c := by
        intro hd
        refine ht ?_
        rw [← hd]
        exact hof
      exact h.calling_other hch hne hcalls hhand (hasked d hne)
  | listening m s =>
      obtain ⟨hm, hbusy, hs⟩ := h
      refine ⟨hdel ▸ hm, hhand ▸ hbusy, ?_⟩
      by_cases hc : m.corrId = c
      · rw [hc, hch.self]
        rw [hc] at hs hbusy
        exact hlisten hbusy m.body s hs
      · rw [hch.other hc]
        exact hs

/-- A step of the listener leaves the calls as they are, if it does not
disturb the call it is about. -/
theorem others_listen {w w' : RpcState} {c : String} {e : RpcEntry}
    (hch : w.Changes c e w') (hcalls : w'.calls = w.calls)
    (hhand : w'.handling = w.handling)
    (hasked : ∀ d, w'.Asked d ↔ w.Asked d)
    (hcall : ∀ s : CallStage, s.At (w.entry c) (w.handling = some c)
      (w.Asked c) → s.At e (w.handling = some c) (w.Asked c))
    {t : RpcThread} {s : RpcPhase} (hof : s.Of t) (ht : t ≠ .listen)
    (h : s.At w) : s.At w' := by
  cases s with
  | returned d => trivial
  | left => exact absurd hof ht
  | listening m s => exact absurd hof ht
  | calling d args s =>
      by_cases hd : d = c
      · subst hd
        refine ⟨hcalls ▸ h.1, ?_⟩
        rw [hch.self, hhand, propext (hasked d)]
        exact hcall s h.2
      · exact h.calling_other hch hd hcalls hhand (hasked d)

-- ================================================================= steps

section steps

variable {queue : String} {w w' : RpcState}
  {m₁ m₂ : List (RpcThread × RpcPhase)} {t : RpcThread} {s s' : RpcPhase}

/-- The other threads have other tags. -/
theorem RpcInv.others (h : RpcInv queue w (m₁ ++ (t, s) :: m₂)) :
    ∀ ts ∈ m₁ ++ m₂, ts.1 ≠ t := by
  have hnd := h.tags
  rw [List.map_append, List.map_cons, List.nodup_middle, List.nodup_cons,
    ← List.map_append] at hnd
  intro ts hts heq
  have hmem : ts.1 ∈ (m₁ ++ m₂).map Prod.fst := List.mem_map_of_mem hts
  rw [heq] at hmem
  exact hnd.1 hmem

/-- One action that changes the entry of one id. -/
theorem RpcInv.change {c : String} {e : RpcEntry}
    (h : RpcInv queue w (m₁ ++ (t, s) :: m₂))
    (hch : w.Changes c e w') (hcalls : w'.calls = w.calls)
    (hhand : w'.handling = w.handling) (hfault : w'.fault = w.fault)
    (hnodup : w'.promises.Nodup) (hin : c ∈ w.calls.map Prod.fst)
    (hsane : e.Sane (w.handling = some c)) (hmail : RpcMail queue w')
    (hof : s'.Of t) (hat : s'.At w')
    (hothers : ∀ ts ∈ m₁ ++ m₂, ts.2.Of ts.1 → ts.1 ≠ t → ts.2.At w →
      ts.2.At w') :
    RpcInv queue w' (m₁ ++ (t, s') :: m₂) where
  nodup := hnodup
  sound := hfault.trans h.sound
  sane d := by
    rw [hhand]
    by_cases hd : d = c
    · rw [hd, hch.self]
      exact hsane
    · rw [hch.other hd]
      exact h.sane d
  unused d hd := by
    rw [hcalls] at hd
    have hne : d ≠ c := fun heq => hd (heq ▸ hin)
    rw [hch.other hne]
    exact h.unused d hd
  mail := hmail
  tags := by
    have htags := h.tags
    rw [List.map_append, List.map_cons] at htags ⊢
    exact htags
  own ts hts := by
    rw [List.mem_append, List.mem_cons] at hts
    obtain hts | rfl | hts := hts
    · exact h.own ts (List.mem_append_left _ hts)
    · exact hof
    · exact h.own ts (List.mem_append_right _ (List.mem_cons_of_mem _ hts))
  at_ ts hts := by
    have hother : ∀ ts ∈ m₁ ++ m₂, ts ∈ m₁ ++ (t, s) :: m₂ → ts.2.At w' :=
      fun ts hmem hts => hothers ts hmem (h.own ts hts) (h.others ts hmem)
        (h.at_ ts hts)
    rw [List.mem_append, List.mem_cons] at hts
    obtain hts | rfl | hts := hts
    · exact hother ts (List.mem_append_left _ hts)
        (List.mem_append_left _ hts)
    · exact hat
    · exact hother ts (List.mem_append_right _ hts)
        (List.mem_append_right _ (List.mem_cons_of_mem _ hts))
  listens hl := by
    rw [hhand] at hl
    have hmem := h.listens hl
    rw [List.map_append, List.map_cons] at hmem ⊢
    exact hmem
  known d hd := by
    rw [hcalls]
    refine h.known d ?_
    rw [List.map_append, List.map_cons] at hd ⊢
    exact hd

/-- What a call knows when it acts. -/
theorem RpcInv.calling {c : String} {args : CallArgs} {cs : CallStage}
    (h : RpcInv queue w (m₁ ++ (t, .calling c args cs) :: m₂)) :
    t = .call c ∧ (c, args) ∈ w.calls
      ∧ cs.At (w.entry c) (w.handling = some c) (w.Asked c) := by
  have hmem : (t, RpcPhase.calling c args cs)
      ∈ m₁ ++ (t, .calling c args cs) :: m₂ := by simp
  exact ⟨h.own _ hmem, h.at_ _ hmem⟩

/-- What `on_msg` knows when it acts. -/
theorem RpcInv.listening {m : RpcReply} {ls : ListenStage}
    (h : RpcInv queue w (m₁ ++ (t, .listening m ls) :: m₂)) :
    t = .listen ∧ m ∈ w.delivered ∧ w.handling = some m.corrId
      ∧ ls.At (w.entry m.corrId) m.body := by
  have hmem : (t, RpcPhase.listening m ls)
      ∈ m₁ ++ (t, .listening m ls) :: m₂ := by simp
  exact ⟨h.own _ hmem, h.at_ _ hmem⟩

/-- A step of a call that only reads. -/
theorem RpcInv.call_reads {c : String} {args : CallArgs}
    {cs cs' : CallStage}
    (h : RpcInv queue w (m₁ ++ (t, .calling c args cs) :: m₂))
    (hat : cs'.At (w.entry c) (w.handling = some c) (w.Asked c)) :
    RpcInv queue w (m₁ ++ (t, .calling c args cs') :: m₂) := by
  obtain ⟨ht, hin, _⟩ := h.calling
  have hmem : c ∈ w.calls.map Prod.fst := List.mem_map_of_mem hin
  have hch : w.Changes c (w.entry c) w := (Function.update_eq_self _ _).symm
  exact h.change hch rfl rfl rfl h.nodup
    hmem (h.sane c) h.mail ht ⟨hin, hat⟩
    fun ts _ _ _ hts => hts

/-- It is kept when a call enters. -/
theorem RpcInv.emplace {c : String} {args : CallArgs}
    (h : RpcInv queue w (m₁ ++ (t, .calling c args .entering) :: m₂)) :
    RpcInv queue { w with promises := c :: w.promises }
      (m₁ ++ (t, .calling c args .registered) :: m₂) := by
  obtain ⟨ht, hin, he, hasked⟩ := h.calling
  have hmem : c ∈ w.calls.map Prod.fst := List.mem_map_of_mem hin
  have hch := RpcState.changes_emplace w c
  have hout : c ∉ w.promises := by
    rw [mem_promises, he]
    decide
  rw [he] at hch
  refine h.change hch rfl rfl rfl (List.nodup_cons.2 ⟨hout, h.nodup⟩)
    hmem ?_ ?_ ht ⟨hin, ?_⟩ ?_
  · exact ⟨fun _ => ⟨rfl, fun hv => absurd rfl hv⟩, Nat.zero_le 1,
      fun hend => absurd rfl hend⟩
  · exact { h.mail with }
  · exact ⟨hch.self, hasked⟩
  · intro ts _ hof hne hts
    refine others_call hch rfl rfl rfl (fun d _ => Iff.rfl) ?_ hof
      (ht ▸ hne) hts
    exact fun hb => absurd (h.mail.asked_of_handling hb) hasked

/-- When its request is published. -/
theorem RpcInv.publish {c : String} {args : CallArgs} {q : RpcRequest}
    (h : RpcInv queue w (m₁ ++ (t, .calling c args .registered) :: m₂))
    (hq : q.props = ⟨c, queue⟩) :
    RpcInv queue { w with requests := w.requests ++ [q] }
      (m₁ ++ (t, .calling c args .waiting) :: m₂) := by
  obtain ⟨ht, hin, he, _⟩ := h.calling
  have hmem : c ∈ w.calls.map Prod.fst := List.mem_map_of_mem hin
  have hch : w.Changes c (w.entry c)
      { w with requests := w.requests ++ [q] } :=
    (Function.update_eq_self _ _).symm
  have hmore : ∀ d, w.Asked d →
      ({ w with requests := w.requests ++ [q] } : RpcState).Asked d := by
    intro d hd
    obtain ⟨r, hr, hrd⟩ := hd
    exact ⟨r, List.mem_append_left _ hr, hrd⟩
  have hless : ∀ d, ({ w with requests := w.requests ++ [q] }
      : RpcState).Asked d → w.Asked d ∨ d = c := by
    intro d hd
    obtain ⟨r, hr, hrd⟩ := hd
    obtain hr | hr := List.mem_append.1 hr
    · exact .inl ⟨r, hr, hrd⟩
    · rw [List.mem_singleton.1 hr, hq] at hrd
      exact .inr hrd.symm
  refine h.change hch rfl rfl rfl h.nodup hmem (h.sane c) ?_ ht ⟨hin, ?_⟩ ?_
  · refine { h.mail with asked := ?_, replyTo := ?_, replies := ?_ }
    · intro d hd
      obtain hd | rfl := hless d hd
      · exact h.mail.asked d hd
      · exact hmem
    · intro r hr
      obtain hr | hr := List.mem_append.1 hr
      · exact h.mail.replyTo r hr
      · rw [List.mem_singleton.1 hr, hq]
    · exact fun r hr => ⟨(h.mail.replies r hr).1,
        hmore _ (h.mail.replies r hr).2⟩
  · change CallStage.waiting.At (w.entry c) _ _
    rw [he]
    exact ⟨.inl ⟨rfl, rfl⟩, rfl, rfl⟩
  · intro ts _ hof hne hts
    refine others_call hch rfl rfl rfl (fun d hd => ⟨fun hd' => ?_, hmore d⟩)
      (fun _ _ _ hs => hs) hof (ht ▸ hne) hts
    exact (hless d hd').resolve_right hd

/-- When its wait runs out. -/
theorem RpcInv.expire {c : String} {args : CallArgs}
    (h : RpcInv queue w (m₁ ++ (t, .calling c args .waiting) :: m₂))
    (hnone : w.values c = none) (hfree : w.handling ≠ some c) :
    RpcInv queue { w with expired := c :: w.expired }
      (m₁ ++ (t, .calling c args .expired) :: m₂) := by
  obtain ⟨ht, hin, hp, hend, hexp⟩ := h.calling
  have hmem : c ∈ w.calls.map Prod.fst := List.mem_map_of_mem hin
  have hch := RpcState.changes_expire w c
  have he : w.entry c = { RpcEntry.unused with inTable := true } := by
    obtain hp | hp := hp
    · exact RpcEntry.ext hp.1 hnone hp.2 hend hexp
    · exact absurd hnone hp.2.2
  rw [he] at hch
  refine h.change hch rfl rfl rfl h.nodup hmem ?_ { h.mail with } ht
    ⟨hin, hch.self, hfree⟩ ?_
  · exact ⟨fun _ => ⟨rfl, fun hv => absurd rfl hv⟩, Nat.zero_le 1,
      fun hend => absurd rfl hend⟩
  · intro ts _ hof hne hts
    exact others_call hch rfl rfl rfl (fun d _ => Iff.rfl)
      (fun hb => absurd hb hfree) hof (ht ▸ hne) hts

/-- When it then takes its entry out. -/
theorem RpcInv.lapse {c : String} {args : CallArgs}
    (h : RpcInv queue w (m₁ ++ (t, .calling c args .expired) :: m₂)) :
    RpcInv queue { w with promises := w.promises.erase c,
                          removed := c :: w.removed }
      (m₁ ++ (t, .calling c args .lapsed) :: m₂) := by
  obtain ⟨ht, hin, he, hfree⟩ := h.calling
  have hmem : c ∈ w.calls.map Prod.fst := List.mem_map_of_mem hin
  have hch := RpcState.changes_erase h.nodup c
  rw [he] at hch
  refine h.change hch rfl rfl rfl (h.nodup.erase c) hmem ?_ { h.mail with }
    ht ⟨hin, ?_⟩ ?_
  · exact ⟨fun htable => (by cases htable), Nat.le_refl 1,
      fun hend => absurd rfl hend⟩
  · rw [hch.self]
    exact ⟨rfl, rfl, rfl⟩
  · intro ts _ hof hne hts
    exact others_call hch rfl rfl rfl (fun d _ => Iff.rfl)
      (fun hb => absurd hb hfree) hof (ht ▸ hne) hts

/-- A call returns what it may, with its entry removed or about to be. -/
theorem RpcInv.finish {c : String} {args : CallArgs} {cs : CallStage}
    {e : CallEnd} (h : RpcInv queue w (m₁ ++ (t, .calling c args cs) :: m₂))
    (hover : ((w.entry c).inTable = false ∧ (w.entry c).removals = 1)
      ∨ ((w.entry c).inTable = true ∧ (w.entry c).value ≠ none))
    (he : e = .returned (RpcClient.timeoutReply args.params)
      ∨ ∃ m ∈ w.delivered, m.corrId = c ∧ e = .returned m.body) :
    RpcInv queue { w with ends := Function.update w.ends c (some e) }
      (m₁ ++ (t, .returned c) :: m₂) := by
  obtain ⟨ht, hin, _⟩ := h.calling
  have hmem : c ∈ w.calls.map Prod.fst := List.mem_map_of_mem hin
  have hch := RpcState.changes_finish w c e
  have hsane := h.sane c
  refine h.change hch rfl rfl rfl h.nodup hmem ?_ ?_ ht trivial ?_
  · exact ⟨hsane.table, hsane.once, fun _ => hover⟩
  · refine { h.mail with ends := ?_ }
    intro d e' he'
    by_cases hd : d = c
    · subst hd
      change Function.update w.ends d (some e) d = some e' at he'
      rw [Function.update_self] at he'
      injection he' with he'
      exact ⟨args, hin, he' ▸ he⟩
    · change Function.update w.ends c (some e) d = some e' at he'
      rw [Function.update_of_ne hd] at he'
      exact h.mail.ends d e' he'
  · intro ts _ hof hne hts
    refine others_call hch rfl rfl rfl (fun d _ => Iff.rfl) ?_ hof
      (ht ▸ hne) hts
    intro _ body ls hls
    cases ls <;> exact hls

/-- A step of `on_msg` that only reads. -/
theorem RpcInv.listen_reads {m : RpcReply} {ls ls' : ListenStage}
    (h : RpcInv queue w (m₁ ++ (t, .listening m ls) :: m₂))
    (hat : ls'.At (w.entry m.corrId) m.body) :
    RpcInv queue w (m₁ ++ (t, .listening m ls') :: m₂) := by
  obtain ⟨ht, hm, hbusy, _⟩ := h.listening
  have hmem : m.corrId ∈ w.calls.map Prod.fst :=
    h.mail.asked _ (h.mail.asked_of_handling hbusy)
  have hch : w.Changes m.corrId (w.entry m.corrId) w :=
    (Function.update_eq_self _ _).symm
  exact h.change hch rfl rfl rfl h.nodup hmem (h.sane _) h.mail ht
    ⟨hm, hbusy, hat⟩ fun ts _ _ _ hts => hts

/-- When the listener sets its value. -/
theorem RpcInv.setValue {m : RpcReply}
    (h : RpcInv queue w (m₁ ++ (t, .listening m .found) :: m₂)) :
    RpcInv queue
      { w with values := Function.update w.values m.corrId (some m.body) }
      (m₁ ++ (t, .listening m .valued) :: m₂) := by
  obtain ⟨ht, hm, hbusy, htable, hnone, _⟩ := h.listening
  have hasked := h.mail.asked_of_handling hbusy
  have hch := RpcState.changes_setValue w m.corrId m.body
  have hsane := h.sane m.corrId
  refine h.change hch rfl rfl rfl h.nodup (h.mail.asked _ hasked) ?_ ?_ ht
    ⟨hm, hbusy, ?_⟩ ?_
  · exact ⟨fun _ => ⟨(hsane.table htable).1, fun _ => hbusy⟩, hsane.once,
      fun _ => .inr ⟨htable, Option.some_ne_none _⟩⟩
  · refine { h.mail with values := ?_ }
    intro d v hv
    by_cases hd : d = m.corrId
    · subst hd
      change Function.update w.values m.corrId _ m.corrId = some v at hv
      rw [Function.update_self] at hv
      injection hv with hv
      exact ⟨m, hm, rfl, hv⟩
    · change Function.update w.values m.corrId _ d = some v at hv
      rw [Function.update_of_ne hd] at hv
      exact h.mail.values d v hv
  · rw [hch.self]
    exact ⟨htable, rfl⟩
  · intro ts _ hof hne hts
    exact others_listen hch rfl rfl (fun d => Iff.rfl)
      (fun cs hcs => hcs.setValue hbusy hasked htable hnone m.body) hof
      (ht ▸ hne) hts

/-- When the listener takes its entry out. -/
theorem RpcInv.drop {m : RpcReply}
    (h : RpcInv queue w (m₁ ++ (t, .listening m .valued) :: m₂)) :
    RpcInv queue { w with promises := w.promises.erase m.corrId,
                          removed := m.corrId :: w.removed }
      (m₁ ++ (t, .listening m .leaving) :: m₂) := by
  obtain ⟨ht, hm, hbusy, htable, hvalue⟩ := h.listening
  have hasked := h.mail.asked_of_handling hbusy
  have hch := RpcState.changes_erase h.nodup m.corrId
  have hzero := ((h.sane m.corrId).table htable).1
  have hsome : (w.entry m.corrId).value ≠ none := by
    rw [hvalue]
    exact Option.some_ne_none _
  refine h.change hch rfl rfl rfl (h.nodup.erase _) (h.mail.asked _ hasked)
    ?_ { h.mail with } ht ⟨hm, hbusy, ?_⟩ ?_
  · refine ⟨fun hf => (by cases hf), ?_, fun _ => .inl ⟨rfl, ?_⟩⟩
    · change (w.entry m.corrId).removals + 1 ≤ 1
      rw [hzero]
    · change (w.entry m.corrId).removals + 1 = 1
      rw [hzero]
  · rw [hch.self]
    rfl
  · intro ts _ hof hne hts
    exact others_listen hch rfl rfl (fun d => Iff.rfl)
      (fun cs hcs => hcs.dropped hasked htable hzero hsome) hof (ht ▸ hne)
      hts

/-- When the listener is done. -/
theorem RpcInv.leave {m : RpcReply}
    (h : RpcInv queue w (m₁ ++ (t, .listening m .leaving) :: m₂)) :
    RpcInv queue { w with handling := none } (m₁ ++ (t, .left) :: m₂) := by
  obtain ⟨ht, _, hbusy, hgone⟩ := h.listening
  have hothers := h.others
  have hmap : (m₁ ++ (t, RpcPhase.left) :: m₂).map Prod.fst
      = (m₁ ++ (t, RpcPhase.listening m .leaving) :: m₂).map Prod.fst := by
    rw [List.map_append, List.map_append]
    rfl
  refine { h with sane := ?_, mail := ?_, tags := hmap ▸ h.tags, own := ?_,
                  at_ := ?_, listens := fun hl => absurd rfl hl,
                  known := fun d hd => h.known d (hmap ▸ hd) }
  · intro c
    have hsane := h.sane c
    refine ⟨fun htable => ⟨(hsane.table htable).1, fun hv => ?_⟩,
      hsane.once, hsane.left⟩
    -- the only entry with a value is the one just dropped
    have hc : some m.corrId = some c :=
      hbusy.symm.trans ((hsane.table htable).2 hv)
    injection hc with hc
    rw [hc] at hgone
    have hf : true = false := htable.symm.trans hgone
    cases hf
  · exact { h.mail with handling := fun c hc => (by cases hc) }
  · intro ts hts
    rw [List.mem_append, List.mem_cons] at hts
    obtain hts | rfl | hts := hts
    · exact h.own ts (List.mem_append_left _ hts)
    · exact ht
    · exact h.own ts (List.mem_append_right _ (List.mem_cons_of_mem _ hts))
  · have hother : ∀ ts ∈ m₁ ++ m₂,
        ts ∈ m₁ ++ (t, RpcPhase.listening m .leaving) :: m₂ →
        ts.2.At { w with handling := none } := by
      intro ts hmem hts
      obtain ⟨t', s'⟩ := ts
      have hof := h.own _ hts
      have hat := h.at_ _ hts
      cases s' with
      | returned d => trivial
      | left => rfl
      | listening m' ls =>
          exact absurd (hof.trans ht.symm) (hothers _ hmem)
      | calling d args cs =>
          exact ⟨hat.1, hat.2.left fun hb => (by cases hb)⟩
    intro ts hts
    rw [List.mem_append, List.mem_cons] at hts
    obtain hts | rfl | hts := hts
    · exact hother ts (List.mem_append_left _ hts)
        (List.mem_append_left _ hts)
    · rfl
    · exact hother ts (List.mem_append_right _ hts)
        (List.mem_append_right _ (List.mem_cons_of_mem _ hts))

/-- One action keeps the invariant. -/
theorem RpcInv.exec (h : RpcInv queue w (m₁ ++ (t, s) :: m₂))
    (hmove : RpcMove queue s w s' w') :
    RpcInv queue w' (m₁ ++ (t, s') :: m₂) := by
  cases hmove with
  | emplace => exact h.emplace
  | publish hq => exact h.publish hq
  | expire hnone hfree => exact h.expire hnone hfree
  | lapse => exact h.lapse
  | timeout =>
      obtain ⟨_, _, htable, hone, _⟩ := h.calling
      exact h.finish (.inl ⟨htable, hone⟩) (.inl rfl)
  | wake hsome =>
      obtain ⟨_, _, hp, hend, _⟩ := h.calling
      exact h.call_reads ⟨hp, hend, hsome⟩
  | get hv =>
      obtain ⟨_, _, hp, hend, _⟩ := h.calling
      exact h.call_reads ⟨hp, hend, hv⟩
  | @answer c args _ v =>
      obtain ⟨_, _, hp, _, hv⟩ := h.calling
      have hsome : (w.entry c).value ≠ none := by
        rw [hv]
        exact Option.some_ne_none _
      obtain ⟨m, hm, hmc, hmv⟩ := h.mail.values c v hv
      refine h.finish ?_ (.inr ⟨m, hm, hmc, by rw [hmv]⟩)
      obtain hp | hp := hp
      · exact .inr ⟨hp.1, hsome⟩
      · exact .inl ⟨hp.1, hp.2.1⟩
  | find hin =>
      obtain ⟨_, _, _, hat⟩ := h.listening
      exact h.listen_reads ⟨mem_promises.1 hin, hat (mem_promises.1 hin)⟩
  | @unknown m _ hout =>
      refine h.listen_reads ?_
      change (w.entry m.corrId).inTable = false
      rw [mem_promises, Bool.not_eq_true] at hout
      exact hout
  | setValue => exact h.setValue
  | drop => exact h.drop
  | leave => exact h.leave

/-- A thread that has ended leaves. -/
theorem RpcInv.retire (h : RpcInv queue w (m₁ ++ (t, s) :: m₂))
    (hs : s.Stops) : RpcInv queue w (m₁ ++ m₂) := by
  have hsub : (m₁ ++ m₂).Sublist (m₁ ++ (t, s) :: m₂) :=
    (List.Sublist.refl m₁).append (List.sublist_cons_self _ _)
  have hmem : (t, s) ∈ m₁ ++ (t, s) :: m₂ := by simp
  refine { h with tags := h.tags.sublist (hsub.map _),
                  own := fun ts hts => h.own ts (hsub.subset hts),
                  at_ := fun ts hts => h.at_ ts (hsub.subset hts),
                  listens := fun hl => ?_,
                  known := fun d hd => h.known d ((hsub.map _).subset hd) }
  have hin := h.listens hl
  have hof := h.own _ hmem
  have hat := h.at_ _ hmem
  cases s with
  | returned c =>
      rw [List.map_append, List.map_cons, List.mem_append, List.mem_cons,
        show t = .call c from hof] at hin
      rw [List.map_append, List.mem_append]
      obtain hin | hin | hin := hin
      · exact .inl hin
      · cases hin
      · exact .inr hin
  | left => exact absurd hat hl
  | calling c args cs => exact hs.elim
  | listening m ls => exact hs.elim

/-- The states differ in the calls made, the replies and what is being
handled; nothing is said about any id that was not before. -/
theorem RpcPhase.At.calling_same {c : String} {args : CallArgs}
    {cs : CallStage} (h : (RpcPhase.calling c args cs).At w)
    (hcalls : ∀ x ∈ w.calls, x ∈ w'.calls) (he : w'.entry = w.entry)
    (hasked : w'.Asked c ↔ w.Asked c)
    (hbusy : cs.At (w.entry c) (w.handling = some c) (w.Asked c) →
      cs.At (w.entry c) (w'.handling = some c) (w.Asked c)) :
    (RpcPhase.calling c args cs).At w' := by
  refine ⟨hcalls _ h.1, ?_⟩
  rw [he, propext hasked]
  exact hbusy h.2

/-- A call starts, with a fresh id. -/
theorem RpcInv.start {m : List (RpcThread × RpcPhase)} {c : String}
    {args : CallArgs} (h : RpcInv queue w m)
    (hfresh : c ∉ w.calls.map Prod.fst) :
    RpcInv queue { w with calls := w.calls ++ [(c, args)] }
      (m ++ [(.call c, .calling c args .entering)]) := by
  have hmore : ∀ x ∈ w.calls, x ∈ w.calls ++ [(c, args)] :=
    fun x hx => List.mem_append_left _ hx
  have hids : ∀ d ∈ w.calls.map Prod.fst,
      d ∈ (w.calls ++ [(c, args)]).map Prod.fst := by
    intro d hd
    rw [List.map_append]
    exact List.mem_append_left _ hd
  have hnew : c ∈ (w.calls ++ [(c, args)]).map Prod.fst := by
    rw [List.map_append]
    exact List.mem_append_right _ (List.mem_singleton_self c)
  refine { h with unused := ?_, mail := ?_, tags := ?_, own := ?_,
                  at_ := ?_, listens := ?_, known := ?_ }
  · intro d hd
    exact h.unused d fun hmem => hd (hids d hmem)
  · refine { h.mail with asked := fun d hd => hids d (h.mail.asked d hd),
                         ends := fun d e he => ?_ }
    obtain ⟨a, ha, he⟩ := h.mail.ends d e he
    exact ⟨a, hmore _ ha, he⟩
  · rw [List.map_append, List.nodup_append]
    refine ⟨h.tags, List.nodup_singleton _, fun a ha b hb hab => ?_⟩
    rw [hab, List.mem_singleton.1 hb] at ha
    exact hfresh (h.known c ha)
  · intro ts hts
    obtain hts | hts := List.mem_append.1 hts
    · exact h.own ts hts
    · rw [List.mem_singleton.1 hts]
      rfl
  · intro ts hts
    obtain hts | hts := List.mem_append.1 hts
    · obtain ⟨t, s⟩ := ts
      have hat := h.at_ _ hts
      cases s with
      | returned d => trivial
      | left => exact hat
      | listening r ls => exact hat
      | calling d a cs =>
          exact RpcPhase.At.calling_same hat hmore rfl Iff.rfl id
    · rw [List.mem_singleton.1 hts]
      refine ⟨List.mem_append_right _ (List.mem_singleton_self _),
        h.unused c hfresh, fun hasked => hfresh (h.mail.asked c hasked)⟩
  · intro hl
    rw [List.map_append]
    exact List.mem_append_left _ (h.listens hl)
  · intro d hd
    rw [List.map_append, List.mem_append] at hd
    obtain hd | hd := hd
    · exact hids d (h.known d hd)
    · injection List.mem_singleton.1 hd with hd
      rw [hd]
      exact hnew

/-- A reply is taken up. -/
theorem RpcInv.listen {m : List (RpcThread × RpcPhase)} {r : RpcReply}
    (h : RpcInv queue w m) (hr : r ∈ w.replies)
    (hnot : RpcThread.listen ∉ m.map Prod.fst)
    (hrule : ¬ (r.corrId ∈ w.expired ∧ r.corrId ∈ w.promises)) :
    RpcInv queue { w with delivered := w.delivered ++ [r],
                          handling := some r.corrId }
      (m ++ [(.listen, .listening r .arriving)]) := by
  have hfree : w.handling = none := by
    by_contra hb
    exact hnot (h.listens hb)
  have hmore : ∀ x ∈ w.delivered, x ∈ w.delivered ++ [r] :=
    fun x hx => List.mem_append_left _ hx
  have hnone : ∀ c, (w.entry c).inTable = true → (w.entry c).value = none := by
    intro c hc
    by_contra hv
    have hb := ((h.sane c).table hc).2 hv
    rw [hfree] at hb
    cases hb
  refine { h with sane := ?_, mail := ?_, tags := ?_, own := ?_, at_ := ?_,
                  listens := ?_, known := ?_ }
  · intro c
    have hsane := h.sane c
    exact ⟨fun hc => ⟨(hsane.table hc).1, fun hv => absurd (hnone c hc) hv⟩,
      hsane.once, hsane.left⟩
  · refine { h.mail with delivered := fun x hx => ?_,
                         values := fun c v hv => ?_,
                         ends := fun c e he => ?_,
                         handling := fun c hc => ?_ }
    · obtain hx | hx := List.mem_append.1 hx
      · exact h.mail.delivered x hx
      · rw [List.mem_singleton.1 hx]
        exact hr
    · obtain ⟨x, hx, hxv⟩ := h.mail.values c v hv
      exact ⟨x, hmore x hx, hxv⟩
    · obtain ⟨a, ha, he | ⟨x, hx, hxe⟩⟩ := h.mail.ends c e he
      · exact ⟨a, ha, .inl he⟩
      · exact ⟨a, ha, .inr ⟨x, hmore x hx, hxe⟩⟩
    · injection hc with hc
      exact ⟨r, List.mem_append_right _ (List.mem_singleton_self r), hc⟩
  · rw [List.map_append, List.nodup_append]
    refine ⟨h.tags, List.nodup_singleton _, fun a ha b hb hab => ?_⟩
    rw [hab, List.mem_singleton.1 hb] at ha
    exact hnot ha
  · intro ts hts
    obtain hts | hts := List.mem_append.1 hts
    · exact h.own ts hts
    · rw [List.mem_singleton.1 hts]
      rfl
  · intro ts hts
    obtain hts | hts := List.mem_append.1 hts
    · obtain ⟨t, s⟩ := ts
      have hat := h.at_ _ hts
      have hof := h.own _ hts
      have hlisten : t ≠ .listen := fun ht =>
        hnot (ht ▸ List.mem_map_of_mem (f := Prod.fst) hts)
      cases s with
      | returned d => trivial
      | left => exact absurd hof hlisten
      | listening x ls => exact absurd hof hlisten
      | calling d a cs =>
          refine RpcPhase.At.calling_same hat (fun _ hx => hx) rfl Iff.rfl ?_
          intro hcs
          cases cs with
          | expired =>
              refine ⟨hcs.1, fun hb => hrule ?_⟩
              injection hb with hb
              have he := hcs.1
              rw [hb, mem_promises, he]
              exact ⟨decide_eq_true_iff.1 (congrArg RpcEntry.expired he),
                rfl⟩
          | entering => exact hcs
          | registered => exact hcs
          | waiting => exact hcs
          | lapsed => exact hcs
          | ready => exact hcs
          | got v => exact hcs
    · rw [List.mem_singleton.1 hts]
      refine ⟨List.mem_append_right _ (List.mem_singleton_self r), rfl, ?_⟩
      intro htable
      refine ⟨hnone _ htable, ?_⟩
      by_contra hexp
      rw [Bool.not_eq_false] at hexp
      exact hrule ⟨decide_eq_true_iff.1 hexp, mem_promises.2 htable⟩
  · intro _
    rw [List.map_append]
    exact List.mem_append_right _ (List.mem_singleton_self _)
  · intro d hd
    rw [List.map_append, List.mem_append] at hd
    obtain hd | hd := hd
    · exact h.known d hd
    · cases List.mem_singleton.1 hd

/-- A server in bypass mode replies. -/
theorem RpcInv.served {m : List (RpcThread × RpcPhase)} {q : RpcRequest}
    {sv : RpcServer} {r : RpcReply} (h : RpcInv queue w m)
    (hq : q ∈ w.requests) (hsv : sv.bypass = true) (hr : sv.Replies q r) :
    RpcInv queue { w with replies := w.replies ++ [r] } m := by
  have hreply : r.topic = queue ∧ w.Asked r.corrId := by
    obtain ⟨body, hr⟩ | hr := hr
    · unfold RpcServer.sendResponse at hr
      rw [if_pos hsv] at hr
      injection hr with hr
      subst hr
      exact ⟨h.mail.replyTo q hq, q, hq, rfl⟩
    · unfold RpcServer.onMsg at hr
      rw [if_pos hsv] at hr
      injection hr with hr
      cases hr
  refine { h with mail := ?_, at_ := ?_ }
  · refine { h.mail with
      replies := fun x hx => ?_
      delivered := fun x hx =>
        List.mem_append_left _ (h.mail.delivered x hx) }
    obtain hx | hx := List.mem_append.1 hx
    · exact h.mail.replies x hx
    · rw [List.mem_singleton.1 hx]
      exact hreply
  · intro ts hts
    obtain ⟨t, s⟩ := ts
    have hat := h.at_ _ hts
    cases s <;> exact hat

end steps

-- ============================================================ the result

/-- What correlation of calls and replies means. -/
structure Correlated (queue : String) (w : RpcState) : Prop where
  /-- a call that is over returned the body of a reply with its own id, or
  the timeout object -/
  returns : ∀ c e, w.ends c = some e → ∃ args, (c, args) ∈ w.calls
    ∧ (e = .returned (RpcClient.timeoutReply args.params)
      ∨ ∃ m ∈ w.delivered, m.corrId = c ∧ e = .returned m.body)
  /-- no reply is delivered to another call -/
  own : ∀ c v, w.values c = some v →
    ∃ m ∈ w.delivered, m.corrId = c ∧ m.body = v
  /-- no entry is removed twice -/
  once : ∀ c, w.removed.count c ≤ 1
  /-- the entry of a call that is over is removed, but for the moment in
  which `on_msg` is at work on the reply -/
  removed : ∀ c e, w.ends c = some e → w.handling ≠ some c →
    w.removed.count c = 1 ∧ c ∉ w.promises
  /-- replies are published where the client listens -/
  topics : ∀ m ∈ w.replies, m.topic = queue
  /-- no iterator is used after its entry is gone -/
  sound : w.fault = false

/-- It gives what is to be shown of calls and replies. -/
theorem RpcInv.correlated {queue : String} {w : RpcState}
    {m : List (RpcThread × RpcPhase)} (h : RpcInv queue w m) :
    Correlated queue w where
  returns := h.mail.ends
  own := h.mail.values
  once c := (h.sane c).once
  removed c e he hfree := by
    have hended : (w.entry c).ended ≠ none := by
      change w.ends c ≠ none
      rw [he]
      exact Option.some_ne_none _
    obtain ⟨hout, hone⟩ | ⟨hin, hv⟩ := (h.sane c).left hended
    · refine ⟨hone, fun hmem => ?_⟩
      rw [mem_promises, hout] at hmem
      cases hmem
    · exact absurd (((h.sane c).table hin).2 hv) hfree
  topics r hr := (h.mail.replies r hr).1
  sound := h.sound

/-- At the start nothing has been sent. -/
theorem rpcInv_init (queue : String) : RpcInv queue {} [] where
  nodup := List.nodup_nil
  sound := rfl
  sane c := ⟨fun h => (by cases h), Nat.zero_le 1, fun h => absurd rfl h⟩
  unused c _ := rfl
  mail :=
    { asked := fun c h => by
        obtain ⟨q, hq, _⟩ := h
        cases hq
      replyTo := fun q h => by cases h
      replies := fun r h => by cases h
      delivered := fun r h => by cases h
      values := fun c v h => by cases h
      ends := fun c e h => by cases h
      handling := fun c h => by cases h }
  tags := List.nodup_nil
  own ts h := by cases h
  at_ ts h := by cases h
  listens h := absurd rfl h
  known c h := by cases h

/-- In every run in which targets are not empty, no reply comes in time
for a verbose call, none is at work while a wait has run out, and servers
use the bypass mode, calls and replies are correlated. -/
theorem calls_correlated (queue : String) (P : RpcPool)
    (h : (rpcSystem queue .orderly).Run ⟨{}, []⟩ P) :
    Correlated queue P.world := by
  have hinv : ∃ m, (rpcPhases queue).Shows (rpcSystem queue .orderly) P m
      ∧ RpcInv queue P.world m := by
    refine Phases.invariant (J := RpcInv queue) ?_ ?_ ?_ ?_ ?_ h
      ⟨[], .nil, rpcInv_init queue⟩
    · exact fun hJ => hJ.at_
    · exact fun hJ hmove => hJ.exec hmove
    · exact fun hJ hstop => hJ.retire hstop
    · intro P t p w' m hm hJ hspawn
      cases hspawn with
      | call hfresh hstart => exact ⟨_, hJ.start hfresh, call_walks hstart⟩
      | listen hr _ hnot hrule =>
          rw [← hm.tags] at hnot
          exact ⟨_, hJ.listen hr hnot hrule, onMsg_walks⟩
    · intro P w' m _ hJ hout
      cases hout with
      | reply hq hsv hr => exact hJ.served hq hsv hr
  obtain ⟨m, _, hJ⟩ := hinv
  exact hJ.correlated

-- ======================================================== concrete runs

/-- A call registers and publishes its request. -/
theorem run_posted {queue c : String} {args : CallArgs} {ru : RpcRules}
    {w : RpcState} (hfresh : c ∉ w.promises)
    (hstart : RpcClient.topicOf args.target ≠ "rpc/") :
    (rpcSystem queue ru).Run ⟨w, [(.call c, RpcClient.call queue c args)]⟩
      ⟨{ w with
          promises := c :: w.promises
          requests := w.requests ++
            [⟨RpcClient.topicOf args.target, ⟨c, queue⟩, args.params⟩] },
        [(.call c, RpcClient.awaitReply c args)]⟩ := by
  have hlast : (rpcSystem queue ru).Run
      ⟨{ w with promises := c :: w.promises },
        [(.call c, do
          RpcClient.publish
            ⟨RpcClient.topicOf args.target, ⟨c, queue⟩, args.params⟩
          RpcClient.awaitReply c args)]⟩ _ :=
    .single (.exec [] [] .act)
  have hfirst : (rpcSystem queue ru).Step
      ⟨w, [(.call c, RpcClient.call queue c args)]⟩ _ := .exec [] [] .act
  simp only [if_neg hfresh, Prog.bind_pure_act, decide_eq_true hfresh,
    Bool.not_true, Bool.false_eq_true, if_false, if_neg hstart,
    List.nil_append] at hfirst
  exact .head hfirst hlast

/-- A call without parameters. -/
def plainCall (target : String) (verbose : Bool) : CallArgs :=
  ⟨target, .null, verbose⟩

/-- The sample call has a target. -/
theorem plainCall_topic (verbose : Bool) :
    RpcClient.topicOf (plainCall "agent" verbose).target ≠ "rpc/" := by
  change RpcClient.topicOf "agent" ≠ "rpc/"
  decide +kernel

/-- A server in bypass mode, and one whose only handler returns 0. -/
def bypassing : RpcServer := ⟨true, fun _ => none⟩

/-- A server with registered handlers. -/
def registering : RpcServer := ⟨false, fun _ => some fun _ => .int 0⟩

/-- A call that is answered in time. -/
theorem calls_correlated_answered :
    ∃ P, (rpcSystem "rpc-res/client" .orderly).Run ⟨{}, []⟩ P
      ∧ P.world.ends "id" = some (.returned (.int 0))
      ∧ Correlated "rpc-res/client" P.world := by
  have h₀ : (rpcSystem "rpc-res/client" .orderly).Run ⟨{}, []⟩ _ :=
    .single (.spawn (.call (c := "id") (by decide) (plainCall_topic false)))
  have h₁ := h₀.trans (run_posted (by decide) (plainCall_topic false))
  have h₂ := h₁.tail (.env (.reply (.head _)
    (show RpcRules.orderly.server bypassing from rfl) (.inl ⟨.int 0, rfl⟩)))
  have h₃ := h₂.tail (.spawn (.listen (.head _) rfl (by decide)
    fun h => (by cases h.1)))
  have h₄ := h₃.tail (.exec [_] [] .act)
  have h₅ := h₄.tail (.exec [_] [] .act)
  have h₆ := h₅.tail (.exec [_] [] .act)
  have h₇ := h₆.tail (.exec [_] [] .act)
  have h₈ := h₇.tail (.exec [] [_] (.call (r := true) (by exact ⟨rfl, rfl⟩)))
  have h₉ := h₈.tail (.exec [] [_] .act)
  have h₁₀ := h₉.tail (.exec [] [_] .act)
  exact ⟨_, h₁₀, rfl, calls_correlated _ _ h₁₀⟩

/-- Without these rules: a verbose call that is answered in time throws;
a call with an empty target leaves its entry in the table; a reply that
comes between the end of a wait and the erasing of the entry makes the
client erase through a dead iterator; and a server with registered
handlers replies where nobody listens. -/
theorem correlation_lost :
    (∃ P, (rpcSystem "rpc-res/client" .free).Run ⟨{}, []⟩ P
      ∧ P.world.ends "id"
        = some (.raised "std::future_error: No associated state")
      ∧ ¬ Correlated "rpc-res/client" P.world)
    ∧ (∃ P, (rpcSystem "rpc-res/client" .free).Run ⟨{}, []⟩ P
      ∧ P.threads = [] ∧ P.world.handling = none
      ∧ P.world.ends "id"
        = some (.raised "RpcClient::call() empty target not allowed")
      ∧ "id" ∈ P.world.promises ∧ P.world.removed = []
      ∧ ¬ Correlated "rpc-res/client" P.world)
    ∧ (∃ P, (rpcSystem "rpc-res/client" .free).Run ⟨{}, []⟩ P
      ∧ P.world.fault = true ∧ ¬ Correlated "rpc-res/client" P.world)
    ∧ ∃ P, (rpcSystem "rpc-res/client" .free).Run ⟨{}, []⟩ P
      ∧ (∃ m ∈ P.world.replies, m.topic ≠ "rpc-res/client")
      ∧ ¬ Correlated "rpc-res/client" P.world := by
  have hposted : ∀ verbose, (rpcSystem "rpc-res/client" .free).Run ⟨{}, []⟩
      ⟨_, [(.call "id",
        RpcClient.awaitReply "id" (plainCall "agent" verbose))]⟩ :=
    fun verbose => Relation.ReflTransGen.trans
      (.single (.spawn (.call (c := "id") (by decide) trivial)))
      (run_posted (List.not_mem_nil (a := "id")) (plainCall_topic verbose))
  refine ⟨?_, ?_, ?_, ?_⟩
  · have h₂ := (hposted true).tail (.env (.reply (.head _)
      (show RpcRules.free.server bypassing from trivial)
      (.inl ⟨.int 0, rfl⟩)))
    have h₃ := h₂.tail (.spawn (.listen (.head _) rfl (by decide) trivial))
    have h₄ := h₃.tail (.exec [_] [] .act)
    have h₅ := h₄.tail (.exec [_] [] .act)
    have h₆ := h₅.tail (.exec [_] [] .act)
    have h₇ := h₆.tail (.exec [] [_] (.call (r := true)
      (by exact ⟨rfl, trivial⟩)))
    have h₈ := h₇.tail (.exec [] [_] .act)
    refine ⟨_, h₈, rfl, fun hc => ?_⟩
    obtain ⟨_, _, hend | ⟨_, _, _, hend⟩⟩ := hc.returns "id" _ rfl
    · cases hend
    · cases hend
  · have htopic : RpcClient.topicOf (plainCall "" false).target = "rpc/" := by
      change RpcClient.topicOf "" = "rpc/"
      decide +kernel
    have h₁ : (rpcSystem "rpc-res/client" .free).Run ⟨{}, []⟩ _ :=
      .single (.spawn (.call (c := "id") (by decide)
        (show RpcRules.free.start (plainCall "" false) from trivial)))
    have h₂ := h₁.tail (.exec [] [] .act)
    simp only [Prog.bind_pure_act, if_pos htopic] at h₂
    have h₃ := h₂.tail (.exec [] [] .act)
    have h₄ := h₃.tail (.retire [] [] (.pure _))
    refine ⟨_, h₄, rfl, rfl, rfl, .head _, rfl, fun hc => ?_⟩
    obtain ⟨_, hout⟩ := hc.removed "id" _ rfl (Option.some_ne_none _).symm
    exact hout (.head _)
  · have h₂ := (hposted false).tail (.exec [] [] (.call (r := false)
      (by exact ⟨rfl, trivial⟩)))
    have h₃ := h₂.tail (.env (.reply (.head _)
      (show RpcRules.free.server bypassing from trivial)
      (.inl ⟨.int 0, rfl⟩)))
    have h₄ := h₃.tail (.spawn (.listen (.head _) rfl (by decide) trivial))
    have h₅ := h₄.tail (.exec [_] [] .act)
    have h₆ := h₅.tail (.exec [_] [] .act)
    have h₇ := h₆.tail (.exec [_] [] .act)
    have h₈ := h₇.tail (.exec [] [_] .act)
    refine ⟨_, h₈, rfl, fun hc => ?_⟩
    have hsound := hc.sound
    cases hsound
  · have h₂ := (hposted false).tail (.env (.reply (.head _)
      (show RpcRules.free.server registering from trivial) (.inr rfl)))
    refine ⟨_, h₂, ⟨_, .head _, by decide⟩, fun hc => ?_⟩
    have htopic := hc.topics _ (.head _)
    exact absurd htopic (by decide)

end BigDataExpress

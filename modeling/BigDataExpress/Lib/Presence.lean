/-
Presence over a broker: clients that come and go, and an observer that
keeps track of them.

# The pattern

Every client has a key, and a topic of its own at the broker. Once
connected, it announces itself there; when it leaves, or its connection
is lost, the broker publishes its last will. The broker keeps the last
message of every topic (it is retained) and sends it to whoever
subscribes later. The observer subscribes to all topics. What reaches it
waits in its inbox, is put in a queue and handled there, one message at a
time. A message that a client left is of no use to later subscribers, so
the observer clears it at the broker when it gets it.

The observer can lose its connection, and what is on its way then; it can
stop or fail, and start anew. A request to clear a topic can reach the
broker late, and more than once, until it is settled.

# The race

A request to clear a topic clears whatever the broker holds. If the client
was back by then, its new announcement is gone, and an observer that
subscribes later never hears of the client. `Guarded` are the events that
exclude this (`Fresh`), and that keep rivals apart: of two clients that
would be in each other's way one connects only when nothing is left of
the other (`Gone`).

# The invariants

`Settled` says what the broker holds and what the observer is going to
know (`known`: by the last message it has or will get). `Apart` says that
two rivals never leave traces at the same time. What is handled is
therefore free of disputes (`Undisputed`), and an observer with nothing
left to do knows who is there (`last_handled_iff`).
-/
import Mathlib.Logic.Relation
import Mathlib.Logic.Function.Basic
import Mathlib.Data.List.Induction

namespace Presence

variable {κ σ : Type}

-- ============================================================== messages

/-- A client is there, or not. -/
abbrev Msg (κ : Type) : Type := κ × Bool

/-- The last message of a client. -/
def last [DecidableEq κ] (k : κ) (l : List (Msg κ)) : Option Bool :=
  l.foldl (fun r m => if m.1 = k then some m.2 else r) none

section Last

variable [DecidableEq κ] (k : κ)

/-- Nothing was said. -/
@[simp] theorem last_nil : last k ([] : List (Msg κ)) = none := rfl

/-- The last message is about its client. -/
theorem last_snoc (l : List (Msg κ)) (m : Msg κ) :
    last k (l ++ [m]) = if m.1 = k then some m.2 else last k l := by
  simp [last, List.foldl_append]

/-- What was said later counts. -/
theorem last_append (l l' : List (Msg κ)) :
    last k (l ++ l') = (last k l').or (last k l) := by
  induction l' using List.reverseRecOn with
  | nil => simp
  | append_singleton l' m ih =>
      rw [← List.append_assoc, last_snoc, last_snoc, ih]
      by_cases h : m.1 = k
      · simp [h]
      · simp [h]

variable {k}

/-- What was said last was said. -/
theorem mem_of_last {l : List (Msg κ)} {b : Bool} (h : last k l = some b) :
    (k, b) ∈ l := by
  induction l using List.reverseRecOn with
  | nil => cases h
  | append_singleton l m ih =>
      rw [last_snoc] at h
      by_cases hm : m.1 = k
      · rw [if_pos hm] at h
        injection h with h
        subst hm h
        exact List.mem_append_right _ (List.mem_singleton_self _)
      · rw [if_neg hm] at h
        exact List.mem_append_left _ (ih h)

/-- A client that is not spoken of. -/
theorem last_eq_none {l : List (Msg κ)} (h : ∀ b, (k, b) ∉ l) :
    last k l = none := by
  cases hl : last k l with
  | none => rfl
  | some b => exact absurd (mem_of_last hl) (h b)

end Last

-- ================================================================ states

/-- What a client is: gone, connected, or connected and announced. -/
inductive Client
  | away
  | connected
  | announced
deriving DecidableEq

/-- The observer: what waits for it at the broker, what it has taken and
handled, and the state it has made of it. -/
structure Observer (κ σ : Type) where
  subscribed : Bool := false
  /-- on its way from the broker -/
  inbox : List (Msg κ) := []
  /-- received, and to be handled -/
  queue : List (Msg κ) := []
  /-- handled since the start -/
  handled : List (Msg κ) := []
  state : σ

/-- The whole system: the clients, what the broker retains, the requests to
clear that are on their way, and the observer. -/
structure State (κ σ : Type) where
  /-- the clients, as the broker sees them -/
  clients : κ → Client := fun _ => .away
  /-- the message retained of each -/
  retained : κ → Option Bool := fun _ => none
  /-- the topics the broker may still be asked to clear -/
  clears : List κ := []
  observer : Option (Observer κ σ) := none

/-- A message is sent to the observer. -/
def Observer.hear (m : Msg κ) (o : Observer κ σ) : Observer κ σ :=
  if o.subscribed then { o with inbox := o.inbox ++ [m] } else o

namespace Observer

variable {o : Observer κ σ}

/-- An observer that has subscribed gets the message. -/
theorem hear_subscribed (h : o.subscribed = true) (m : Msg κ) :
    o.hear m = { o with inbox := o.inbox ++ [m] } := if_pos h

/-- One that has not does not. -/
theorem hear_idle (h : o.subscribed = false) (m : Msg κ) : o.hear m = o :=
  if_neg (by simp [h])

/-- Hearing does not change that. -/
@[simp] theorem subscribed_hear (m : Msg κ) :
    (o.hear m).subscribed = o.subscribed := by
  unfold hear
  by_cases h : o.subscribed = true <;> simp [h]

/-- What is in the inbox was there or has just come. -/
theorem mem_hear {m n : Msg κ} (h : n ∈ (o.hear m).inbox) :
    n ∈ o.inbox ∨ n = m := by
  cases hs : o.subscribed with
  | true =>
      rw [hear_subscribed hs] at h
      rcases List.mem_append.1 h with h | h
      · exact .inl h
      · exact .inr (List.mem_singleton.1 h)
  | false =>
      rw [hear_idle hs] at h
      exact .inl h

/-- The inbox stays in order when nobody returns out of turn. -/
theorem order_hear {m : Msg κ}
    (h : o.inbox.Pairwise fun m n => m.1 = n.1 → m.2 = false → n.2 = false)
    (hm : m.2 = true → (m.1, false) ∉ o.inbox) :
    (o.hear m).inbox.Pairwise
      fun m n => m.1 = n.1 → m.2 = false → n.2 = false := by
  cases hs : o.subscribed with
  | false => rwa [hear_idle hs]
  | true =>
      rw [hear_subscribed hs]
      apply List.pairwise_append.2
      refine ⟨h, List.pairwise_singleton _ _, ?_⟩
      intro n hn m' hm' hkey hfalse
      rw [List.mem_singleton.1 hm'] at hkey ⊢
      cases hb : m.2 with
      | false => rfl
      | true =>
          obtain ⟨j, b⟩ := n
          change j = m.1 at hkey
          change b = false at hfalse
          subst hkey hfalse
          exact absurd hn (hm hb)

end Observer

/-- The broker publishes a message of a client. -/
def State.publish [DecidableEq κ] (k : κ) (b : Bool) (s : State κ σ) :
    State κ σ :=
  { s with
    retained := Function.update s.retained k (some b)
    observer := s.observer.map (Observer.hear (k, b)) }

/-- The client's connection changes. -/
def State.become [DecidableEq κ] (k : κ) (c : Client) (s : State κ σ) :
    State κ σ :=
  { s with clients := Function.update s.clients k c }

/-- What a subscriber is sent first: the retained messages, in any
order. -/
structure Snapshot (retained : κ → Option Bool) (l : List (Msg κ)) : Prop where
  mem : ∀ k b, (k, b) ∈ l ↔ retained k = some b

-- ================================================================= steps

/-- What can happen. -/
inductive Event (κ : Type)
  | connect (k : κ)
  | announce (k : κ)
  /-- the client leaves, or its connection is lost -/
  | leave (k : κ)
  | receive
  | clear (k : κ)
  /-- requests to clear are done with -/
  | settle
  | work
  /-- the connection of the observer is lost -/
  | lose
  | subscribe
  | start
  | stop

/-- The steps, of an observer that starts in `init` and handles a message
by `handle`; if that fails, the observer is gone. -/
inductive Step [DecidableEq κ] (init : σ) (handle : Msg κ → σ → Option σ) :
    Event κ → State κ σ → State κ σ → Prop
  | connect {s : State κ σ} {k : κ} : s.clients k = .away →
      Step init handle (.connect k) s (s.become k .connected)
  | announce {s : State κ σ} {k : κ} : s.clients k ≠ .away →
      Step init handle (.announce k) s
        ((s.become k .announced).publish k true)
  | leave {s : State κ σ} {k : κ} : s.clients k ≠ .away →
      Step init handle (.leave k) s ((s.become k .away).publish k false)
  | receive {s : State κ σ} {o : Observer κ σ} {m : Msg κ}
      {rest : List (Msg κ)} : s.observer = some o → o.inbox = m :: rest →
      Step init handle .receive s
        { s with
          clears := if m.2 then s.clears else m.1 :: s.clears
          observer := some
            { o with inbox := rest, queue := o.queue ++ [m] } }
  | clear {s : State κ σ} {k : κ} : k ∈ s.clears →
      Step init handle (.clear k) s
        { s with retained := Function.update s.retained k none }
  | settle {s : State κ σ} {l : List κ} : l ⊆ s.clears →
      Step init handle .settle s { s with clears := l }
  | work {s : State κ σ} {o : Observer κ σ} {m : Msg κ}
      {rest : List (Msg κ)} : s.observer = some o → o.queue = m :: rest →
      Step init handle .work s
        { s with
          observer := (handle m o.state).map fun t =>
            { o with
              queue := rest, handled := o.handled ++ [m], state := t } }
  | lose {s : State κ σ} {o : Observer κ σ} : s.observer = some o →
      Step init handle .lose s
        { s with observer := some { o with subscribed := false, inbox := [] } }
  | subscribe {s : State κ σ} {o : Observer κ σ} {l : List (Msg κ)} :
      s.observer = some o → o.subscribed = false → Snapshot s.retained l →
      Step init handle .subscribe s
        { s with observer := some { o with subscribed := true, inbox := l } }
  | start {s : State κ σ} : s.observer = none →
      Step init handle .start s { s with observer := some { state := init } }
  | stop {s : State κ σ} : Step init handle .stop s { s with observer := none }

/-- The runs whose every event is taken in a state that satisfies `C`. -/
abbrev Run [DecidableEq κ] (init : σ) (handle : Msg κ → σ → Option σ)
    (C : Event κ → State κ σ → Prop) : State κ σ → State κ σ → Prop :=
  Relation.ReflTransGen fun s s' => ∃ e, C e s ∧ Step init handle e s s'

-- ================================================= what the observer knows

section Theory

variable [DecidableEq κ] {init : σ} {handle : Msg κ → σ → Option σ}
  {s s' : State κ σ} {o : Observer κ σ} {k : κ}

namespace Observer

/-- The last message received of a client. -/
def got (o : Observer κ σ) (k : κ) : Option Bool :=
  last k (o.handled ++ o.queue)

/-- The last message received, or on its way. -/
def known (o : Observer κ σ) (k : κ) : Option Bool :=
  last k (o.handled ++ o.queue ++ o.inbox)

/-- What is known is the last that waits, or was got before. -/
theorem known_eq (o : Observer κ σ) (k : κ) :
    o.known k = (last k o.inbox).or (o.got k) :=
  last_append k _ _

/-- The observer has heard that a client is there, or is about to. -/
def Expects (o : Observer κ σ) (k : κ) : Prop :=
  (k, true) ∈ o.inbox ∨ o.got k = some true

/-- A client that is known is expected. -/
theorem expects_of_known (h : o.known k = some true) : o.Expects k := by
  rw [known_eq] at h
  cases hl : last k o.inbox with
  | none =>
      rw [hl] at h
      exact .inr h
  | some b =>
      rw [hl] at h
      injection h with h
      subst h
      exact .inl (mem_of_last hl)

/-- The next message is received. -/
def take (o : Observer κ σ) (m : Msg κ) (rest : List (Msg κ)) :
    Observer κ σ :=
  { o with inbox := rest, queue := o.queue ++ [m] }

/-- What is got is the message that is taken, about its client. -/
theorem got_take (m : Msg κ) (rest : List (Msg κ)) :
    (o.take m rest).got k = if m.1 = k then some m.2 else o.got k := by
  unfold got take
  rw [← List.append_assoc, last_snoc]

/-- Taking a message changes nothing of what is known. -/
theorem known_take {m : Msg κ} {rest : List (Msg κ)}
    (h : o.inbox = m :: rest) : (o.take m rest).known k = o.known k := by
  unfold known take
  simp [h]

/-- Nor does it raise expectations. -/
theorem expects_of_take {m : Msg κ} {rest : List (Msg κ)}
    (h : o.inbox = m :: rest) (he : (o.take m rest).Expects k) :
    o.Expects k := by
  unfold Expects at he
  rw [got_take] at he
  rcases he with he | he
  · exact .inl (h ▸ List.mem_cons_of_mem _ he)
  · by_cases hm : m.1 = k
    · rw [if_pos hm] at he
      injection he with he
      left
      rw [h, ← hm, ← he]
      exact List.mem_cons_self ..
    · rw [if_neg hm] at he
      exact .inr he

end Observer

-- ================================================================ settled

/-- What an observer is going to know. -/
structure Keeps (s : State κ σ) (o : Observer κ σ) : Prop where
  /-- nobody returns while it is still to be heard that they left -/
  order : o.inbox.Pairwise fun m n => m.1 = n.1 → m.2 = false → n.2 = false
  idle : o.subscribed = false → o.inbox = []
  left : ∀ k, (k, false) ∈ o.inbox → s.clients k ≠ .announced
    ∧ (o.Expects k → s.retained k = some false)
  cleared : ∀ k ∈ s.clears, ¬ o.Expects k
  there : o.subscribed = true → ∀ k, s.clients k = .announced →
    o.known k = some true
  gone : ∀ k, o.known k = some true → s.clients k = .announced
    ∨ (o.subscribed = false ∧ s.retained k = some false)

/-- What the broker holds, and what an observer is going to know. -/
structure Settled (s : State κ σ) : Prop where
  retained : ∀ k, s.retained k = some true ↔ s.clients k = .announced
  cleared : ∀ k ∈ s.clears, s.clients k ≠ .announced
  keeps : ∀ o ∈ s.observer, Keeps s o

/-- Nothing is left of an earlier stay of the client. -/
def Fresh (s : State κ σ) (k : κ) : Prop :=
  k ∉ s.clears ∧ ∀ o ∈ s.observer, (k, false) ∉ o.inbox

-- ------------------------------------------------- messages of a client

namespace Observer

/-- Hearing gets nothing yet. -/
@[simp] theorem got_hear (m : Msg κ) : (o.hear m).got k = o.got k := by
  unfold hear
  by_cases h : o.subscribed = true <;> simp [h, got]

/-- But the message is known. -/
theorem known_hear (h : o.subscribed = true) (m : Msg κ) :
    (o.hear m).known k = if m.1 = k then some m.2 else o.known k := by
  rw [hear_subscribed h]
  unfold known
  rw [← List.append_assoc, last_snoc]

/-- Only an announcement raises expectations. -/
theorem expects_of_hear {m : Msg κ} (h : (o.hear m).Expects k) :
    o.Expects k ∨ m = (k, true) := by
  unfold Expects at h
  rw [got_hear] at h
  rcases h with h | h
  · exact (mem_hear h).imp Or.inl Eq.symm
  · exact .inl (.inr h)

end Observer

/-- The state after the broker published a message of a client. -/
theorem clients_published (c : Client) (b : Bool) (j : κ) :
    ((s.become k c).publish k b).clients j
      = if j = k then c else s.clients j := Function.update_apply ..

/-- What is published is retained, of its client. -/
theorem retained_published (c : Client) (b : Bool) (j : κ) :
    ((s.become k c).publish k b).retained j
      = if j = k then some b else s.retained j := Function.update_apply ..

/-- An announcement on a clean topic keeps the observer right. -/
theorem Keeps.announced (h : Keeps s o) (hclear : k ∉ s.clears)
    (hinbox : (k, false) ∉ o.inbox) :
    Keeps ((s.become k .announced).publish k true) (o.hear (k, true)) where
  order := Observer.order_hear h.order fun _ => hinbox
  idle := by
    intro hs
    rw [Observer.subscribed_hear] at hs
    rw [Observer.hear_idle hs]
    exact h.idle hs
  left := by
    intro j hj
    rcases Observer.mem_hear hj with hj | hj
    · have hne : j ≠ k := fun he => hinbox (he ▸ hj)
      rw [clients_published, if_neg hne, retained_published, if_neg hne]
      refine ⟨(h.left j hj).1, fun he => (h.left j hj).2 ?_⟩
      rcases Observer.expects_of_hear he with he | he
      · exact he
      · exact absurd (congrArg Prod.fst he).symm hne
    · cases hj
  cleared := by
    intro j hj he
    rcases Observer.expects_of_hear he with he | he
    · exact h.cleared j hj he
    · injection he with he
      exact hclear (he ▸ hj)
  there := by
    intro hs j hj
    rw [Observer.subscribed_hear] at hs
    rw [Observer.known_hear hs]
    rw [clients_published] at hj
    by_cases hjk : j = k
    · rw [if_pos hjk.symm]
    · rw [if_neg (Ne.symm hjk)]
      exact h.there hs j (by rwa [if_neg hjk] at hj)
  gone := by
    intro j hj
    rw [clients_published, retained_published]
    by_cases hjk : j = k
    · rw [if_pos hjk]
      exact .inl rfl
    · rw [if_neg hjk, if_neg hjk, Observer.subscribed_hear]
      apply h.gone
      cases hs : o.subscribed with
      | true => rwa [Observer.known_hear hs, if_neg (Ne.symm hjk)] at hj
      | false => rwa [Observer.hear_idle hs] at hj

/-- So does the message that a client has left. -/
theorem Keeps.departed (h : Keeps s o) :
    Keeps ((s.become k .away).publish k false) (o.hear (k, false)) where
  order := Observer.order_hear h.order fun ht => by cases ht
  idle := by
    intro hs
    rw [Observer.subscribed_hear] at hs
    rw [Observer.hear_idle hs]
    exact h.idle hs
  left := by
    intro j hj
    rw [clients_published, retained_published]
    by_cases hjk : j = k
    · rw [if_pos hjk, if_pos hjk]
      exact ⟨by simp, fun _ => rfl⟩
    · rw [if_neg hjk, if_neg hjk]
      rcases Observer.mem_hear hj with hj | hj
      · refine ⟨(h.left j hj).1, fun he => (h.left j hj).2 ?_⟩
        rcases Observer.expects_of_hear he with he | he
        · exact he
        · cases he
      · exact absurd (congrArg Prod.fst hj) hjk
  cleared := by
    intro j hj he
    rcases Observer.expects_of_hear he with he | he
    · exact h.cleared j hj he
    · cases he
  there := by
    intro hs j hj
    rw [Observer.subscribed_hear] at hs
    rw [clients_published] at hj
    by_cases hjk : j = k
    · rw [if_pos hjk] at hj
      cases hj
    · rw [if_neg hjk] at hj
      rw [Observer.known_hear hs, if_neg (Ne.symm hjk)]
      exact h.there hs j hj
  gone := by
    intro j hj
    rw [clients_published, retained_published, Observer.subscribed_hear]
    cases hs : o.subscribed with
    | true =>
        rw [Observer.known_hear hs] at hj
        by_cases hjk : j = k
        · rw [if_pos hjk.symm] at hj
          cases hj
        · rw [if_neg (Ne.symm hjk)] at hj
          rw [if_neg hjk, if_neg hjk]
          exact hs ▸ h.gone j hj
    | false =>
        rw [Observer.hear_idle hs] at hj
        by_cases hjk : j = k
        · rw [if_pos hjk, if_pos hjk]
          exact .inr ⟨rfl, rfl⟩
        · rw [if_neg hjk, if_neg hjk]
          exact hs ▸ h.gone j hj

-- ------------------------------------------------ steps of the observer

/-- So does taking a message, which asks to clear the topic of one that
left. -/
theorem Keeps.received {m : Msg κ} {rest : List (Msg κ)}
    (h : Keeps s o) (hin : o.inbox = m :: rest) :
    Keeps { s with
      clears := if m.2 then s.clears else m.1 :: s.clears
      observer := some (o.take m rest) } (o.take m rest) := by
  have hpair := h.order
  rw [hin] at hpair
  obtain ⟨hfirst, hrest⟩ := List.pairwise_cons.1 hpair
  refine ⟨hrest, ?_, ?_, ?_, ?_, ?_⟩
  · intro hs
    have hnil := h.idle hs
    rw [hin] at hnil
    cases hnil
  · intro j hj
    have hmem : (j, false) ∈ o.inbox := hin ▸ List.mem_cons_of_mem _ hj
    exact ⟨(h.left j hmem).1,
      fun he => (h.left j hmem).2 (Observer.expects_of_take hin he)⟩
  · intro j hj he
    have hold : j ∉ s.clears :=
      fun hj => h.cleared j hj (Observer.expects_of_take hin he)
    cases hb : m.2 with
    | true =>
        rw [hb] at hj
        exact hold hj
    | false =>
        rw [hb] at hj
        rcases List.mem_cons.1 hj with rfl | hj
        · rcases he with he | he
          · cases hfirst _ he rfl hb
          · rw [Observer.got_take, if_pos rfl, hb] at he
            cases he
        · exact hold hj
  · intro hs j hj
    rw [Observer.known_take hin]
    exact h.there hs j hj
  · intro j hj
    rw [Observer.known_take hin] at hj
    exact h.gone j hj

/-- So does losing the connection. -/
theorem Keeps.lost (h : Keeps s o) :
    Keeps { s with
      observer := some { o with subscribed := false, inbox := [] } }
      { o with subscribed := false, inbox := [] } where
  order := List.Pairwise.nil
  idle := fun _ => rfl
  left := fun j hj => absurd hj List.not_mem_nil
  cleared := by
    rintro j hj (he | he)
    · exact absurd he List.not_mem_nil
    · exact h.cleared j hj (.inr he)
  there := fun hs => by cases hs
  gone := by
    intro j hj
    rw [Observer.known_eq] at hj
    change o.got j = some true at hj
    have hknown := Observer.known_eq o j
    cases hl : last j o.inbox with
    | none =>
        rw [hl] at hknown
        exact (h.gone j (hknown.trans hj)).imp_right fun hg => ⟨rfl, hg.2⟩
    | some b =>
        rw [hl] at hknown
        cases b with
        | true => exact (h.gone j hknown).imp_right fun hg => ⟨rfl, hg.2⟩
        | false =>
            -- that the client left was on its way, and is retained
            exact .inr ⟨rfl, (h.left j (mem_of_last hl)).2 (.inr hj)⟩

/-- A snapshot tells of each client what is retained. -/
theorem last_snapshot {retained : κ → Option Bool} {l : List (Msg κ)}
    (h : Snapshot retained l) (j : κ) : last j l = retained j := by
  cases hl : last j l with
  | some b => exact ((h.mem j b).1 (mem_of_last hl)).symm
  | none =>
      cases hr : retained j with
      | none => rfl
      | some b =>
          have hmem := (h.mem j b).2 hr
          obtain ⟨l₁, l₂, rfl⟩ := List.append_of_mem hmem
          have hsplit : l₁ ++ (j, b) :: l₂ = l₁ ++ [(j, b)] ++ l₂ := by simp
          rw [hsplit, last_append, last_snoc, if_pos rfl] at hl
          cases hlast : last j l₂ <;> simp [hlast] at hl

/-- So does subscribing, which brings a snapshot. -/
theorem Keeps.subscribed {l : List (Msg κ)} (h : Keeps s o)
    (hs : Settled s) (hidle : o.subscribed = false)
    (hl : Snapshot s.retained l) :
    Keeps { s with observer := some { o with subscribed := true, inbox := l } }
      { o with subscribed := true, inbox := l } := by
  have hknown (j : κ) :
      Observer.known { o with subscribed := true, inbox := l } j
        = (s.retained j).or (o.got j) := by
    rw [Observer.known_eq]
    exact congrArg (Option.or · _) (last_snapshot hl j)
  refine ⟨?_, fun hf => (by cases hf), ?_, ?_, ?_, ?_⟩
  · apply List.pairwise_of_forall_mem_list
    intro m hm n hn hkey hfalse
    have hmr := (hl.mem m.1 m.2).1 hm
    rw [hkey, (hl.mem n.1 n.2).1 hn] at hmr
    injection hmr with hmr
    rw [hmr, hfalse]
  · intro j hj
    have hj : s.retained j = some false := (hl.mem j false).1 hj
    refine ⟨fun ha => ?_, fun _ => hj⟩
    rw [(hs.retained j).2 ha] at hj
    cases hj
  · rintro j hj (he | he)
    · exact hs.cleared j hj ((hs.retained j).1 ((hl.mem j true).1 he))
    · exact h.cleared j hj (.inr he)
  · intro _ j hj
    rw [hknown, (hs.retained j).2 hj]
    rfl
  · intro j hj
    rw [hknown] at hj
    cases hr : s.retained j with
    | some b =>
        rw [hr] at hj
        injection hj with hj
        subst hj
        exact .inl ((hs.retained j).1 hr)
    | none =>
        rw [hr] at hj
        have hk : o.known j = some true := by
          rw [Observer.known_eq, h.idle hidle]
          exact hj
        rcases h.gone j hk with hg | hg
        · exact .inl hg
        · rw [hr] at hg
          cases hg.2

/-- A change that the rest of the state does not show. -/
theorem Keeps.congr {o' : Observer κ σ} (h : Keeps s o)
    (hclients : ∀ j, s'.clients j = .announced ↔ s.clients j = .announced)
    (hretained : s'.retained = s.retained) (hclears : s'.clears ⊆ s.clears)
    (hsub : o'.subscribed = o.subscribed) (hin : o'.inbox = o.inbox)
    (hgot : ∀ j, o'.got j = o.got j) : Keeps s' o' := by
  have hknown (j : κ) : o'.known j = o.known j := by
    rw [Observer.known_eq, Observer.known_eq, hin, hgot]
  have hexp (j : κ) : o'.Expects j ↔ o.Expects j := by
    rw [Observer.Expects, Observer.Expects, hin, hgot]
  constructor
  · rw [hin]
    exact h.order
  · rw [hsub, hin]
    exact h.idle
  · intro j hj
    rw [hin] at hj
    rw [ne_eq, hclients, hretained, hexp]
    exact h.left j hj
  · intro j hj
    rw [hexp]
    exact h.cleared j (hclears hj)
  · intro hs j hj
    rw [hknown]
    exact h.there (hsub ▸ hs) j ((hclients j).1 hj)
  · intro j hj
    rw [hknown] at hj
    rw [hclients, hretained, hsub]
    exact h.gone j hj

/-- Every event keeps the system settled, if announcements are fresh. -/
theorem Settled.step {e : Event κ} (h : Settled s)
    (hfresh : ∀ k, e = .announce k → Fresh s k)
    (hstep : Step init handle e s s') : Settled s' := by
  cases hstep with
  | @connect _ k hk =>
      have hclients (j : κ) : (s.become k .connected).clients j = .announced
          ↔ s.clients j = .announced := by
        show Function.update s.clients k .connected j = _ ↔ _
        rw [Function.update_apply]
        by_cases hjk : j = k
        · simp [hjk, hk]
        · rw [if_neg hjk]
      refine ⟨fun j => ?_, fun j hj => ?_, fun o ho => ?_⟩
      · rw [hclients]
        exact h.retained j
      · rw [ne_eq, hclients]
        exact h.cleared j hj
      · exact (h.keeps o ho).congr hclients rfl (List.Subset.refl _) rfl rfl
          fun _ => rfl
  | @announce _ k hk =>
      obtain ⟨hclear, hinbox⟩ := hfresh k rfl
      refine ⟨fun j => ?_, fun j hj => ?_, fun o ho => ?_⟩
      · rw [clients_published, retained_published]
        by_cases hjk : j = k
        · simp [hjk]
        · rw [if_neg hjk, if_neg hjk]
          exact h.retained j
      · have hne : j ≠ k := fun he => hclear (he ▸ hj)
        rw [clients_published, if_neg hne]
        exact h.cleared j hj
      · obtain ⟨o, hold, rfl⟩ := Option.map_eq_some_iff.1 ho
        exact (h.keeps o hold).announced hclear (hinbox o hold)
  | @leave _ k hk =>
      refine ⟨fun j => ?_, fun j hj => ?_, fun o ho => ?_⟩
      · rw [clients_published, retained_published]
        by_cases hjk : j = k
        · simp [hjk]
        · rw [if_neg hjk, if_neg hjk]
          exact h.retained j
      · rw [clients_published]
        by_cases hjk : j = k
        · simp [hjk]
        · rw [if_neg hjk]
          exact h.cleared j hj
      · obtain ⟨o, hold, rfl⟩ := Option.map_eq_some_iff.1 ho
        exact (h.keeps o hold).departed
  | @receive _ o m rest ho hin =>
      have hkeeps := h.keeps o ho
      refine ⟨h.retained, fun j hj => ?_, fun o' ho' => ?_⟩
      · cases hb : m.2 with
        | true =>
            rw [hb] at hj
            exact h.cleared j hj
        | false =>
            rw [hb] at hj
            rcases List.mem_cons.1 hj with rfl | hj
            · have hmem : (m.1, false) ∈ o.inbox := by
                rw [hin, ← hb]
                exact List.mem_cons_self ..
              exact (hkeeps.left _ hmem).1
            · exact h.cleared j hj
      · injection ho' with ho'
        subst ho'
        exact hkeeps.received hin
  | @clear _ k hk =>
      have hretained (j : κ) (hj : s.clients j = .announced ∨ j ≠ k) :
          Function.update s.retained k none j = s.retained j := by
        apply Function.update_of_ne
        rintro rfl
        exact hj.elim (h.cleared _ hk) fun hne => hne rfl
      refine ⟨fun j => ?_, h.cleared, fun o ho => ?_⟩
      · show Function.update s.retained k none j = _ ↔ s.clients j = _
        by_cases hjk : j = k
        · subst hjk
          simp [h.cleared j hk]
        · rw [hretained j (.inr hjk)]
          exact h.retained j
      · have hkeeps := h.keeps o ho
        refine ⟨hkeeps.order, hkeeps.idle, fun j hj => ?_, hkeeps.cleared,
          hkeeps.there, fun j hj => ?_⟩
        · refine ⟨(hkeeps.left j hj).1, fun he => ?_⟩
          have hne : j ≠ k := fun hjk => hkeeps.cleared k hk (hjk ▸ he)
          exact (hretained j (.inr hne)).trans ((hkeeps.left j hj).2 he)
        · have hne : j ≠ k := fun hjk =>
            hkeeps.cleared k hk (hjk ▸ Observer.expects_of_known hj)
          refine (hkeeps.gone j hj).imp_right fun hg => ⟨hg.1, ?_⟩
          exact (hretained j (.inr hne)).trans hg.2
  | settle hl =>
      exact ⟨h.retained, fun j hj => h.cleared j (hl hj), fun o ho =>
        (h.keeps o ho).congr (fun _ => Iff.rfl) rfl hl rfl rfl fun _ => rfl⟩
  | @work _ o m rest ho hq =>
      refine ⟨h.retained, h.cleared, fun o' ho' => ?_⟩
      obtain ⟨t, ht, rfl⟩ := Option.map_eq_some_iff.1 ho'
      refine (h.keeps o ho).congr (fun _ => Iff.rfl) rfl
        (List.Subset.refl _) rfl rfl fun j => ?_
      unfold Observer.got
      rw [hq]
      simp
  | lose ho =>
      refine ⟨h.retained, h.cleared, fun o' ho' => ?_⟩
      injection ho' with ho'
      subst ho'
      exact (h.keeps _ ho).lost
  | subscribe ho hidle hl =>
      refine ⟨h.retained, h.cleared, fun o' ho' => ?_⟩
      injection ho' with ho'
      subst ho'
      exact (h.keeps _ ho).subscribed h hidle hl
  | start ho =>
      refine ⟨h.retained, h.cleared, fun o' ho' => ?_⟩
      injection ho' with ho'
      subst ho'
      refine ⟨List.Pairwise.nil, fun _ => rfl,
        fun j hj => absurd hj List.not_mem_nil, ?_, fun hs => (by cases hs),
        fun j hj => by cases hj⟩
      rintro j _ (he | he) <;> cases he
  | stop => exact ⟨h.retained, h.cleared, fun o' ho' => by cases ho'⟩

/-- It is settled at first. -/
theorem settled_initial : Settled ({} : State κ σ) :=
  ⟨fun j => by simp, fun j hj => absurd hj List.not_mem_nil,
    fun o ho => by cases ho⟩

/-- An observer with nothing left to do has heard last of those that are there
that they are. -/
theorem Settled.last_handled_iff (h : Settled s) (ho : s.observer = some o)
    (hs : o.subscribed = true) (hin : o.inbox = []) (hq : o.queue = [])
    (k : κ) : last k o.handled = some true ↔ s.clients k = .announced := by
  have hknown : o.known k = last k o.handled := by
    unfold Observer.known
    rw [hin, hq, List.append_nil, List.append_nil]
  have hkeeps := h.keeps o ho
  rw [← hknown]
  constructor
  · intro hk
    rcases hkeeps.gone k hk with hg | hg
    · exact hg
    · rw [hs] at hg
      cases hg.1
  · exact hkeeps.there hs k

-- ================================================================= rivals

/-- Nothing is left of a client. -/
structure Gone (s : State κ σ) (k : κ) : Prop where
  away : s.clients k = .away
  forgotten : s.retained k ≠ some false
  unheard : ∀ o ∈ s.observer, ∀ b, (k, b) ∉ o.queue ∧ (k, b) ∉ o.inbox

/-- The events that clear nothing by mistake and keep rivals apart. -/
def Guarded (rival : κ → κ → Prop) (e : Event κ) (s : State κ σ) : Prop :=
  match e with
  | .connect k => ∀ j, rival k j → Gone s j
  | .announce k => Fresh s k
  | _ => True

/-- Two rivals never leave traces at the same time. -/
def Apart (rival : κ → κ → Prop) (s : State κ σ) : Prop :=
  ∀ k j, rival k j → Gone s k ∨ Gone s j

/-- When a message of a client comes, no rival of it is taken to be
there. -/
def Undisputed (rival : κ → κ → Prop) (l : List (Msg κ)) : Prop :=
  ∀ l₁ m l₂, l = l₁ ++ m :: l₂ → ∀ j, rival m.1 j → last j l₁ ≠ some true

/-- A message of a client none of whose rivals is taken to be there. -/
theorem Undisputed.snoc {rival : κ → κ → Prop} {l : List (Msg κ)} {m : Msg κ}
    (h : Undisputed rival l) (hm : ∀ j, rival m.1 j → last j l ≠ some true) :
    Undisputed rival (l ++ [m]) := by
  intro l₁ n l₂ heq j hj
  rcases List.eq_nil_or_concat l₂ with rfl | ⟨l₂, n', rfl⟩
  · obtain ⟨rfl, hn⟩ := List.append_inj' heq rfl
    injection hn with hn
    subst hn
    exact hm j hj
  · have hsplit : l₁ ++ n :: l₂.concat n' = l₁ ++ n :: l₂ ++ [n'] := by simp
    rw [hsplit] at heq
    exact h l₁ n l₂ (List.append_inj' heq rfl).1 j hj

/-- And the other way round. -/
theorem Undisputed.of_snoc {rival : κ → κ → Prop} {l : List (Msg κ)}
    {m : Msg κ} (h : Undisputed rival (l ++ [m])) :
    Undisputed rival l ∧ ∀ j, rival m.1 j → last j l ≠ some true := by
  constructor
  · intro l₁ n l₂ heq
    apply h l₁ n (l₂ ++ [m])
    rw [heq]
    simp
  · exact h l m [] rfl

/-- A client that is gone stays so until it connects. -/
theorem Gone.step {e : Event κ} (h : Gone s k) (hs : Settled s)
    (hstep : Step init handle e s s') (hne : e ≠ .connect k) : Gone s' k := by
  have hother {j : κ} (hj : s.clients j ≠ .away) : k ≠ j :=
    fun he => hj (he ▸ h.away)
  have hpublish {j : κ} (c : Client) (b : Bool) (hkj : k ≠ j) :
      Gone ((s.become j c).publish j b) k := by
    refine ⟨?_, ?_, fun o ho b' => ?_⟩
    · rw [clients_published, if_neg hkj]
      exact h.away
    · rw [retained_published, if_neg hkj]
      exact h.forgotten
    · obtain ⟨o, hold, rfl⟩ := Option.map_eq_some_iff.1 ho
      have hnot := h.unheard o hold b'
      constructor
      · have hqueue : (o.hear (j, b)).queue = o.queue := by
          unfold Observer.hear
          by_cases hsub : o.subscribed = true <;> simp [hsub]
        rw [hqueue]
        exact hnot.1
      · intro hmem
        rcases Observer.mem_hear hmem with hmem | hmem
        · exact hnot.2 hmem
        · exact hkj (congrArg Prod.fst hmem)
  cases hstep with
  | @connect _ j hj =>
      have hkj : k ≠ j := fun he => hne (he ▸ rfl)
      refine ⟨?_, h.forgotten, h.unheard⟩
      exact (Function.update_of_ne hkj ..).trans h.away
  | announce hj => exact hpublish _ _ (hother hj)
  | leave hj => exact hpublish _ _ (hother hj)
  | @receive _ o m rest ho hin =>
      refine ⟨h.away, h.forgotten, fun o' ho' b => ?_⟩
      injection ho' with ho'
      subst ho'
      obtain ⟨hqueue, hinbox⟩ := h.unheard o ho b
      rw [hin] at hinbox
      constructor
      · intro hmem
        rcases List.mem_append.1 hmem with hmem | hmem
        · exact hqueue hmem
        · exact hinbox (List.mem_singleton.1 hmem ▸ List.mem_cons_self ..)
      · exact fun hmem => hinbox (List.mem_cons_of_mem _ hmem)
  | @clear _ j hj =>
      refine ⟨h.away, ?_, h.unheard⟩
      show Function.update s.retained j none k ≠ _
      rw [Function.update_apply]
      by_cases hkj : k = j
      · simp [hkj]
      · rw [if_neg hkj]
        exact h.forgotten
  | settle => exact ⟨h.away, h.forgotten, h.unheard⟩
  | @work _ o m rest ho hq =>
      refine ⟨h.away, h.forgotten, fun o' ho' b => ?_⟩
      obtain ⟨t, -, rfl⟩ := Option.map_eq_some_iff.1 ho'
      obtain ⟨hqueue, hinbox⟩ := h.unheard o ho b
      rw [hq] at hqueue
      exact ⟨fun hmem => hqueue (List.mem_cons_of_mem _ hmem), hinbox⟩
  | lose ho =>
      refine ⟨h.away, h.forgotten, fun o' ho' b => ?_⟩
      injection ho' with ho'
      subst ho'
      exact ⟨(h.unheard _ ho b).1, List.not_mem_nil⟩
  | subscribe ho hidle hl =>
      refine ⟨h.away, h.forgotten, fun o' ho' b => ?_⟩
      injection ho' with ho'
      subst ho'
      refine ⟨(h.unheard _ ho b).1, fun hmem => ?_⟩
      have hretained := (hl.mem k b).1 hmem
      cases b with
      | false => exact h.forgotten hretained
      | true =>
          have hannounced := (hs.retained k).1 hretained
          rw [h.away] at hannounced
          cases hannounced
  | start ho =>
      refine ⟨h.away, h.forgotten, fun o' ho' b => ?_⟩
      injection ho' with ho'
      subst ho'
      exact ⟨List.not_mem_nil, List.not_mem_nil⟩
  | stop => exact ⟨h.away, h.forgotten, fun o' ho' => by cases ho'⟩

/-- A client of which nothing is left is not taken to be there. -/
theorem Gone.last_handled (h : Gone s k) (hs : Settled s)
    (ho : s.observer = some o) : last k o.handled ≠ some true := by
  intro hk
  have hqueue : last k o.queue = none :=
    last_eq_none fun b => (h.unheard o ho b).1
  have hinbox : last k o.inbox = none :=
    last_eq_none fun b => (h.unheard o ho b).2
  have hknown : o.known k = some true := by
    unfold Observer.known
    rw [last_append, last_append, hqueue, hinbox]
    exact hk
  rcases (hs.keeps o ho).gone k hknown with hg | hg
  · rw [h.away] at hg
    cases hg
  · exact h.forgotten hg.2

-- =================================================================== runs

/-- What was handled, without a dispute, and where it led. -/
def Replayed (rival : κ → κ → Prop) (init : σ)
    (handle : Msg κ → σ → Option σ) (handled : List (Msg κ)) (t : σ) : Prop :=
  Undisputed rival handled
    ∧ handled.foldlM (fun t m => handle m t) init = some t

/-- What every state of a guarded run is like. -/
structure Orderly (rival : κ → κ → Prop) (init : σ)
    (handle : Msg κ → σ → Option σ) (s : State κ σ) : Prop where
  settled : Settled s
  apart : Apart rival s
  replayed : ∀ o ∈ s.observer, Replayed rival init handle o.handled o.state

/-- What was handled changes by work and by a new start only. -/
theorem handled_step {e : Event κ} (hstep : Step init handle e s s')
    (ho : o ∈ s'.observer) :
    (∃ o' ∈ s.observer, o.handled = o'.handled ∧ o.state = o'.state)
      ∨ (o.handled = [] ∧ o.state = init)
      ∨ ∃ o' ∈ s.observer, ∃ m ∈ o'.queue, o.handled = o'.handled ++ [m]
        ∧ handle m o'.state = some o.state := by
  have hheard {m : Msg κ} (ho : o ∈ s.observer.map (Observer.hear m)) :
      ∃ o' ∈ s.observer, o.handled = o'.handled ∧ o.state = o'.state := by
    obtain ⟨o', hold, rfl⟩ := Option.map_eq_some_iff.1 ho
    refine ⟨o', hold, ?_⟩
    unfold Observer.hear
    by_cases hs : o'.subscribed = true <;> simp [hs]
  cases hstep with
  | announce => exact .inl (hheard ho)
  | leave => exact .inl (hheard ho)
  | connect => exact .inl ⟨o, ho, rfl, rfl⟩
  | clear => exact .inl ⟨o, ho, rfl, rfl⟩
  | settle => exact .inl ⟨o, ho, rfl, rfl⟩
  | receive hold =>
      injection ho with ho
      subst ho
      exact .inl ⟨_, hold, rfl, rfl⟩
  | lose hold =>
      injection ho with ho
      subst ho
      exact .inl ⟨_, hold, rfl, rfl⟩
  | subscribe hold =>
      injection ho with ho
      subst ho
      exact .inl ⟨_, hold, rfl, rfl⟩
  | start =>
      injection ho with ho
      subst ho
      exact .inr (.inl ⟨rfl, rfl⟩)
  | @work _ o' m rest hold hq =>
      obtain ⟨t, ht, rfl⟩ := Option.map_eq_some_iff.1 ho
      exact .inr (.inr ⟨o', hold, m, hq ▸ List.mem_cons_self .., rfl, ht⟩)
  | stop => cases ho

section Runs

variable {rival : κ → κ → Prop}

/-- The system is orderly at first. -/
theorem orderly_initial :
    Orderly rival init handle ({} : State κ σ) where
  settled := settled_initial
  apart := fun k j _ => .inl ⟨rfl, by simp, fun o ho => by cases ho⟩
  replayed := fun o ho => by cases ho

/-- Of two rivals one is gone, and only the other can connect. -/
theorem Apart.step {e : Event κ} (h : Apart rival s) (hs : Settled s)
    (hirr : ∀ k, ¬ rival k k) (hsymm : ∀ k j, rival k j → rival j k)
    (hguard : Guarded rival e s) (hstep : Step init handle e s s') :
    Apart rival s' := by
  have hkept (k j : κ) (hkj : rival k j) (hk : Gone s k) :
      Gone s' k ∨ Gone s' j := by
    by_cases he : e = .connect k
    · have hj : Gone s j := by
        subst he
        exact hguard j hkj
      refine .inr (hj.step hs hstep fun hj' => ?_)
      rw [he] at hj'
      injection hj' with hj'
      exact hirr k (hj' ▸ hkj)
    · exact .inl (hk.step hs hstep he)
  intro k j hkj
  rcases h k j hkj with hk | hj
  · exact hkept k j hkj hk
  · exact (hkept j k (hsymm k j hkj) hj).symm

/-- The next message to be handled is undisputed. -/
theorem Orderly.next (h : Orderly rival init handle s) (ho : s.observer = some o)
    {m : Msg κ} (hm : m ∈ o.queue) : Undisputed rival (o.handled ++ [m]) := by
  apply (h.replayed o ho).1.snoc
  intro j hj
  rcases h.apart _ _ hj with hg | hg
  · exact absurd hm (hg.unheard o ho m.2).1
  · exact hg.last_handled h.settled ho

/-- Guarded events keep it orderly. -/
theorem Orderly.step {e : Event κ} (h : Orderly rival init handle s)
    (hirr : ∀ k, ¬ rival k k) (hsymm : ∀ k j, rival k j → rival j k)
    (hguard : Guarded rival e s) (hstep : Step init handle e s s') :
    Orderly rival init handle s' := by
  refine ⟨h.settled.step ?_ hstep, h.apart.step h.settled hirr hsymm hguard hstep,
    fun o ho => ?_⟩
  · intro k hk
    subst hk
    exact hguard
  · rcases handled_step hstep ho with ⟨o', hold, hh, hst⟩ | ⟨hh, hst⟩
      | ⟨o', hold, m, hm, hh, hst⟩
    · rw [hh, hst]
      exact h.replayed o' hold
    · rw [hh, hst]
      refine ⟨fun l₁ m l₂ heq => ?_, rfl⟩
      cases l₁ <;> cases heq
    · rw [hh]
      refine ⟨h.next hold hm, ?_⟩
      rw [List.foldlM_append, (h.replayed o' hold).2]
      exact (bind_pure _).trans hst

/-- So do runs of them. -/
theorem Orderly.run (h : Orderly rival init handle s)
    (hirr : ∀ k, ¬ rival k k) (hsymm : ∀ k j, rival k j → rival j k)
    (hrun : Run init handle (Guarded rival) s s') :
    Orderly rival init handle s' := by
  induction hrun with
  | refl => exact h
  | tail _ hstep ih =>
      obtain ⟨e, hguard, hstep⟩ := hstep
      exact ih.step hirr hsymm hguard hstep

/-- The events of an observer that is left alone. -/
def Quiet (e : Event κ) (_ : State κ σ) : Prop := e = .receive ∨ e = .work

end Runs

end Theory

end Presence

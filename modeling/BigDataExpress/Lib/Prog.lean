/-
Handler programs: the small language in which event handlers are
written, and the two ways of running them.

# The language

A handler is a finite tree of atomic actions on one shared state, of
calls to the outside (answered by the environment, with a reply type
that depends on the call), of results and of exceptions. `Prog` is that
tree; its monad instance lets a handler be written as a `do` block, one
line per action, so it can be read against the code it embeds.

# The two semantics

- `Prog.run` runs a handler alone, from the first action to the last,
  against an oracle that answers the calls. The state records every call
  (`Env.eff`), so an oracle that reads the state can answer each call of
  a run differently: quantifying over oracles quantifies over every
  outcome of every call.
- `Prog.Step` performs one action and leaves the rest of the handler.
  `Pool.lean` interleaves many handlers with it.

# The logic

`Prog.rg` is rely/guarantee validity by recursion on the tree: before
every action the state may move along the rely, every own action must
be inside the guarantee, and the postcondition holds at the end. It is
closed under the rely (`rg_rely`), composes through `bind`
(`rg_bind`) and is preserved by a step (`rg_step`). With equality for a
rely it is the plain weakest precondition `wp` of the solo run
(`wp_run`).
-/
import Mathlib.Logic.Relation
import Mathlib.Tactic.Basic

namespace Interact

-- ========================================================= the language

/-- A handler over the shared state `σ`, with calls `ε` answered in
`ρ`: `act f k` atomically replaces the state by its image under `f` and
goes on with what it read (the state before). -/
inductive Prog (σ : Type) (ε : Type) (ρ : ε → Type) (α : Type) : Type
  | pure (a : α)
  | throw (msg : String)
  | act (f : σ → σ) (k : σ → Prog σ ε ρ α)
  | call (e : ε) (k : ρ e → Prog σ ε ρ α)

variable {σ ε : Type} {ρ : ε → Type} {α β γ : Type}

namespace Prog

/-- Sequencing: an exception skips the rest. -/
def bind : Prog σ ε ρ α → (α → Prog σ ε ρ β) → Prog σ ε ρ β
  | .pure a, g => g a
  | .throw m, _ => .throw m
  | .act f k, g => .act f fun s => (k s).bind g
  | .call e k, g => .call e fun r => (k r).bind g

instance : Monad (Prog σ ε ρ) where
  pure := Prog.pure
  bind := Prog.bind

/-- The monad's bind is the one of programs. -/
theorem bind_eq (p : Prog σ ε ρ α) (g : α → Prog σ ε ρ β) :
    p >>= g = p.bind g := rfl

/-- What follows a result gets it. -/
@[simp] theorem bind_pure_act (a : α) (g : α → Prog σ ε ρ β) :
    (Prog.pure a).bind g = g a := rfl

/-- Nothing follows an exception. -/
@[simp] theorem bind_throw (m : String) (g : α → Prog σ ε ρ β) :
    (Prog.throw m : Prog σ ε ρ α).bind g = .throw m := rfl

/-- What follows an operation follows its continuation. -/
@[simp] theorem bind_act (f : σ → σ) (k : σ → Prog σ ε ρ α)
    (g : α → Prog σ ε ρ β) :
    (Prog.act f k).bind g = .act f fun s => (k s).bind g := rfl

/-- What follows a call follows its continuation. -/
@[simp] theorem bind_call (e : ε) (k : ρ e → Prog σ ε ρ α)
    (g : α → Prog σ ε ρ β) :
    (Prog.call e k).bind g = .call e fun r => (k r).bind g := rfl

/-- Sequences may be regrouped. -/
theorem bind_assoc (p : Prog σ ε ρ α) (g : α → Prog σ ε ρ β)
    (h : β → Prog σ ε ρ γ) :
    (p.bind g).bind h = p.bind fun a => (g a).bind h := by
  induction p with
  | pure a => rfl
  | throw m => rfl
  | act f k ih => simp only [bind_act, ih]
  | call e k ih => simp only [bind_call, ih]

/-- Returning the result adds nothing. -/
theorem bind_pure (p : Prog σ ε ρ α) : p.bind .pure = p := by
  induction p with
  | pure a => rfl
  | throw m => rfl
  | act f k ih => simp only [bind_act, ih]
  | call e k ih => simp only [bind_call, ih]

/-- Read the state without changing it. -/
def read (f : σ → α) : Prog σ ε ρ α := .act id fun s => .pure (f s)

/-- Change the state. -/
def modify (f : σ → σ) : Prog σ ε ρ Unit := .act f fun _ => .pure ()

/-- Call the outside and return its reply. -/
def ask (e : ε) : Prog σ ε ρ (ρ e) := .call e .pure

end Prog

-- ========================================================= environments

/-- How the outside shows: what a call and its reply leave in the state,
and which replies the environment may give. -/
structure Env (σ ε : Type) (ρ : ε → Type) where
  eff : σ → (e : ε) → ρ e → σ
  adm : σ → (e : ε) → ρ e → Prop

/-- A way of answering every call. -/
abbrev Oracle (σ ε : Type) (ρ : ε → Type) : Type := σ → (e : ε) → ρ e

/-- The oracle only gives admissible replies. -/
def Oracle.Admissible (E : Env σ ε ρ) (o : Oracle σ ε ρ) : Prop :=
  ∀ w e, E.adm w e (o w e)

namespace Prog

-- ======================================================== the solo run

/-- Run a handler alone to its end. -/
def run (E : Env σ ε ρ) (o : Oracle σ ε ρ) :
    Prog σ ε ρ α → σ → Except String α × σ
  | .pure a, w => (.ok a, w)
  | .throw m, w => (.error m, w)
  | .act f k, w => (k w).run E o (f w)
  | .call e k, w => (k (o w e)).run E o (E.eff w e (o w e))

/-- A read hands over the state it finds. -/
@[simp] theorem run_read {β : Type} {E : Env σ ε ρ} {o : Oracle σ ε ρ}
    {f : σ → α} {k : α → Prog σ ε ρ β} {w : σ} :
    ((read f : Prog σ ε ρ α) >>= k).run E o w = (k (f w)).run E o w := rfl

/-- A run with the answers given only reads what calls leave behind. -/
theorem run_env {E E' : Env σ ε ρ} (h : E.eff = E'.eff) (o : Oracle σ ε ρ)
    (p : Prog σ ε ρ α) (w : σ) : p.run E o w = p.run E' o w := by
  induction p generalizing w with
  | pure a => rfl
  | throw m => rfl
  | act f k ih => exact ih w (f w)
  | call e k ih =>
      show (k (o w e)).run E o (E.eff w e (o w e)) = _
      rw [ih, h]
      rfl

-- ======================================================== single steps

/-- One action of a handler. -/
inductive Step (E : Env σ ε ρ) :
    Prog σ ε ρ α → σ → Prog σ ε ρ α → σ → Prop
  | act {f : σ → σ} {k : σ → Prog σ ε ρ α} {w : σ} :
      Step E (.act f k) w (k w) (f w)
  | call {e : ε} {k : ρ e → Prog σ ε ρ α} {w : σ} {r : ρ e} :
      E.adm w e r → Step E (.call e k) w (k r) (E.eff w e r)

/-- The handler has nothing left to do. -/
inductive Ended : Prog σ ε ρ α → Prop
  | pure (a : α) : Ended (.pure a)
  | throw (m : String) : Ended (.throw m)

/-- The first `n` actions of a handler, calls answered by the oracle:
the executable form of `Step`. -/
def steps (E : Env σ ε ρ) (o : Oracle σ ε ρ) :
    Nat → Prog σ ε ρ α → σ → Prog σ ε ρ α × σ
  | 0, p, w => (p, w)
  | _ + 1, .pure a, w => (.pure a, w)
  | _ + 1, .throw m, w => (.throw m, w)
  | n + 1, .act f k, w => steps E o n (k w) (f w)
  | n + 1, .call e k, w => steps E o n (k (o w e)) (E.eff w e (o w e))

-- ================================================== rely and guarantee

variable (E : Env σ ε ρ) (R G : σ → σ → Prop)

/-- Rely/guarantee validity: whatever the state does along `R` between
the handler's own actions, each own action is a `G` step, and `Q` holds
once the handler has ended. -/
def rg (Q : Except String α → σ → Prop) : Prog σ ε ρ α → σ → Prop
  | .pure a, w => ∀ w', R w w' → Q (.ok a) w'
  | .throw m, w => ∀ w', R w w' → Q (.error m) w'
  | .act f k, w => ∀ w', R w w' → G w' (f w') ∧ rg Q (k w') (f w')
  | .call e k, w => ∀ w', R w w' → ∀ r, E.adm w' e r →
      G w' (E.eff w' e r) ∧ rg Q (k r) (E.eff w' e r)

variable {E R G}

/-- Validity survives interference: it quantifies over it already. -/
theorem rg_rely (hR : ∀ a b c, R a b → R b c → R a c)
    {Q : Except String α → σ → Prop} {p : Prog σ ε ρ α} {w w' : σ}
    (h : p.rg E R G Q w) (hw : R w w') : p.rg E R G Q w' := by
  cases p with
  | pure a => exact fun v hv => h v (hR _ _ _ hw hv)
  | throw m => exact fun v hv => h v (hR _ _ _ hw hv)
  | act f k => exact fun v hv => h v (hR _ _ _ hw hv)
  | call e k => exact fun v hv => h v (hR _ _ _ hw hv)

/-- A step of a valid handler is a guarantee step and leaves a valid
handler. -/
theorem rg_step (hR : ∀ w, R w w) {Q : Except String α → σ → Prop}
    {p p' : Prog σ ε ρ α} {w w' : σ} (h : p.rg E R G Q w)
    (hs : Step E p w p' w') : G w w' ∧ p'.rg E R G Q w' := by
  cases hs with
  | act => exact h w (hR w)
  | call hr => exact h w (hR w) _ hr

/-- Weakening the postcondition. -/
theorem rg_mono {Q Q' : Except String α → σ → Prop}
    (hQ : ∀ r w, Q r w → Q' r w) {p : Prog σ ε ρ α} {w : σ}
    (h : p.rg E R G Q w) : p.rg E R G Q' w := by
  induction p generalizing w with
  | pure a => exact fun v hv => hQ _ _ (h v hv)
  | throw m => exact fun v hv => hQ _ _ (h v hv)
  | act f k ih =>
      exact fun v hv => ⟨(h v hv).1, ih v (h v hv).2⟩
  | call e k ih =>
      exact fun v hv r hr => ⟨(h v hv r hr).1, ih r (h v hv r hr).2⟩

/-- Sequencing: the first handler establishes what the second needs. -/
theorem rg_bind (hR : ∀ w, R w w) {Q : Except String β → σ → Prop}
    {p : Prog σ ε ρ α} {g : α → Prog σ ε ρ β} {w : σ}
    (h : p.rg E R G (fun r w => match r with
      | .ok a => (g a).rg E R G Q w
      | .error m => Q (.error m) w) w) :
    (p.bind g).rg E R G Q w := by
  induction p generalizing w with
  | pure a => exact h w (hR w)
  | throw m => exact fun v hv => h v hv
  | act f k ih => exact fun v hv => ⟨(h v hv).1, ih v (h v hv).2⟩
  | call e k ih =>
      exact fun v hv r hr => ⟨(h v hv r hr).1, ih r (h v hv r hr).2⟩

-- ================================================ programs by their acts

/-- Every action of the handler is of kind `K` and every call of kind
`C`, on every path, and none ends in an exception. -/
def Acts (K : (σ → σ) → Prop) (C : ε → Prop) : Prog σ ε ρ α → Prop
  | .pure _ => True
  | .throw _ => False
  | .act f k => K f ∧ ∀ s, (k s).Acts K C
  | .call e k => C e ∧ ∀ r, (k r).Acts K C

section acts

variable {K : (σ → σ) → Prop} {C : ε → Prop}

/-- A sequence does what its parts may do. -/
theorem Acts.bind {p : Prog σ ε ρ α} {g : α → Prog σ ε ρ β}
    (hp : p.Acts K C) (hg : ∀ a, (g a).Acts K C) :
    (p.bind g).Acts K C := by
  induction p with
  | pure a => exact hg a
  | throw m => exact hp.elim
  | act f k ih => exact ⟨hp.1, fun s => ih s (hp.2 s)⟩
  | call e k ih => exact ⟨hp.1, fun r => ih r (hp.2 r)⟩

/-- The same for the monad's bind. -/
theorem Acts.bind' {p : Prog σ ε ρ α} {g : α → Prog σ ε ρ β}
    (hp : p.Acts K C) (hg : ∀ a, (g a).Acts K C) :
    (p >>= g).Acts K C := hp.bind hg

/-- What is allowed may be weakened. -/
theorem Acts.mono {K' : (σ → σ) → Prop} {C' : ε → Prop}
    {p : Prog σ ε ρ α} (hp : p.Acts K C) (hK : ∀ f, K f → K' f)
    (hC : ∀ e, C e → C' e) : p.Acts K' C' := by
  induction p with
  | pure a => trivial
  | throw m => exact hp.elim
  | act f k ih => exact ⟨hK f hp.1, fun s => ih s (hp.2 s)⟩
  | call e k ih => exact ⟨hC e hp.1, fun r => ih r (hp.2 r)⟩

/-- A result does nothing. -/
theorem Acts.pure (a : α) :
    (Pure.pure a : Prog σ ε ρ α).Acts K C := trivial

/-- A read changes nothing. -/
theorem Acts.read (hid : K id) (f : σ → α) :
    (Prog.read f : Prog σ ε ρ α).Acts K C := ⟨hid, fun _ => trivial⟩

/-- One operation. -/
theorem Acts.modify {f : σ → σ} (hf : K f) :
    (Prog.modify f : Prog σ ε ρ Unit).Acts K C := ⟨hf, fun _ => trivial⟩

/-- One call. -/
theorem Acts.ask {e : ε} (he : C e) :
    (Prog.ask e : Prog σ ε ρ (ρ e)).Acts K C := ⟨he, fun _ => trivial⟩

/-- One operation, and what follows. -/
theorem Acts.op {f : σ → σ} {k : Unit → Prog σ ε ρ β} (hf : K f)
    (hk : (k ()).Acts K C) : (Prog.modify f >>= k).Acts K C :=
  ⟨hf, fun _ => hk⟩

/-- A read, and what follows. -/
theorem Acts.look {f : σ → α} {k : α → Prog σ ε ρ β} (hid : K id)
    (hk : ∀ a, (k a).Acts K C) : (Prog.read f >>= k).Acts K C :=
  ⟨hid, fun s => hk (f s)⟩

/-- One call, and what follows. -/
theorem Acts.call {e : ε} {k : ρ e → Prog σ ε ρ β} (he : C e)
    (hk : ∀ r, (k r).Acts K C) : (Prog.ask e >>= k).Acts K C :=
  ⟨he, hk⟩

/-- A handler whose acts and calls keep an assertion keeps it to its
end, whatever it reads and is answered. -/
theorem rg_of_acts {I : σ → Prop} (hI : ∀ w w', I w → R w w' → I w')
    (hK : ∀ f, K f → ∀ w, I w → G w (f w) ∧ I (f w))
    (hC : ∀ e, C e → ∀ w r, I w → E.adm w e r →
      G w (E.eff w e r) ∧ I (E.eff w e r))
    {p : Prog σ ε ρ α} (hp : p.Acts K C) {w : σ} (hw : I w) :
    p.rg E R G (fun r w => (∃ a, r = .ok a) ∧ I w) w := by
  induction p generalizing w with
  | pure a => exact fun v hv => ⟨⟨a, rfl⟩, hI w v hw hv⟩
  | throw m => exact hp.elim
  | act f k ih =>
      intro v hv
      obtain ⟨hg, hi⟩ := hK f hp.1 v (hI w v hw hv)
      exact ⟨hg, ih v (hp.2 v) hi⟩
  | call e k ih =>
      intro v hv r hr
      obtain ⟨hg, hi⟩ := hC e hp.1 v r (hI w v hw hv) hr
      exact ⟨hg, ih r (hp.2 r) hi⟩

end acts

/-- On some path the handler makes a call of kind `C`. -/
def MayCall (C : ε → Prop) : Prog σ ε ρ α → Prop
  | .pure _ => False
  | .throw _ => False
  | .act _ k => ∃ s, (k s).MayCall C
  | .call e k => C e ∨ ∃ r, (k r).MayCall C

/-- A call that is made is of the kinds of the handler's calls. -/
theorem MayCall.of_acts {K : (σ → σ) → Prop} {C D : ε → Prop}
    {p : Prog σ ε ρ α} (h : p.MayCall D) (hp : p.Acts K C) :
    ∃ e, C e ∧ D e := by
  induction p with
  | pure a => exact h.elim
  | throw m => exact h.elim
  | act f k ih =>
      obtain ⟨s, hs⟩ := h
      exact ih s hs (hp.2 s)
  | call e k ih =>
      rcases h with h | ⟨r, hr⟩
      · exact ⟨e, hp.1, h⟩
      · exact ih r hr (hp.2 r)

-- ================================================ weakest preconditions

/-- Weakest precondition of the solo run: no interference, no
constraint on the handler's own actions. -/
def wp (E : Env σ ε ρ) (Q : Except String α → σ → Prop)
    (p : Prog σ ε ρ α) (w : σ) : Prop :=
  p.rg E Eq (fun _ _ => True) Q w

/-- A result establishes what holds of it. -/
@[simp] theorem wp_pure {Q : Except String α → σ → Prop} {a : α} {w : σ} :
    wp E Q (.pure a) w ↔ Q (.ok a) w := by simp [wp, rg]

/-- An exception establishes what holds of it. -/
@[simp] theorem wp_throw {Q : Except String α → σ → Prop} {m : String}
    {w : σ} : wp E Q (.throw m) w ↔ Q (.error m) w := by simp [wp, rg]

/-- An operation, by what follows in the changed state. -/
@[simp] theorem wp_act {Q : Except String α → σ → Prop} {f : σ → σ}
    {k : σ → Prog σ ε ρ α} {w : σ} :
    wp E Q (.act f k) w ↔ wp E Q (k w) (f w) := by simp [wp, rg]

/-- A call, by what follows for every answer that is admitted. -/
@[simp] theorem wp_call {Q : Except String α → σ → Prop} {e : ε}
    {k : ρ e → Prog σ ε ρ α} {w : σ} :
    wp E Q (.call e k) w
      ↔ ∀ r, E.adm w e r → wp E Q (k r) (E.eff w e r) := by
  simp [wp, rg]

/-- Weakest preconditions compose. -/
@[simp] theorem wp_bind {Q : Except String β → σ → Prop}
    {p : Prog σ ε ρ α} {g : α → Prog σ ε ρ β} {w : σ} :
    wp E Q (p.bind g) w ↔ wp E (fun r w => match r with
      | .ok a => wp E Q (g a) w
      | .error m => Q (.error m) w) p w := by
  induction p generalizing w with
  | pure a => simp
  | throw m => simp
  | act f k ih => simp only [bind_act, wp_act, ih]
  | call e k ih => simp only [bind_call, wp_call, ih]

/-- A sequence, by its first part; an exception ends it. -/
@[simp] theorem wp_bind' {Q : Except String β → σ → Prop}
    {p : Prog σ ε ρ α} {g : α → Prog σ ε ρ β} {w : σ} :
    wp E Q (p >>= g) w ↔ wp E (fun r w => match r with
      | .ok a => wp E Q (g a) w
      | .error m => Q (.error m) w) p w := wp_bind

/-- The same for the monad's result. -/
@[simp] theorem wp_pure' {Q : Except String α → σ → Prop} {a : α} {w : σ} :
    wp E Q (Pure.pure a) w ↔ Q (.ok a) w := wp_pure

/-- A read establishes what holds of what it finds. -/
@[simp] theorem wp_read {Q : Except String α → σ → Prop} {f : σ → α}
    {w : σ} : wp E Q (read f) w ↔ Q (.ok (f w)) w := by simp [read]

/-- An operation establishes what holds of the changed state. -/
@[simp] theorem wp_modify {Q : Except String Unit → σ → Prop} {f : σ → σ}
    {w : σ} : wp E Q (modify f) w ↔ Q (.ok ()) (f w) := by simp [modify]

/-- A call establishes what holds of every answer that is admitted. -/
@[simp] theorem wp_ask {e : ε} {Q : Except String (ρ e) → σ → Prop}
    {w : σ} : wp E Q (ask e) w
      ↔ ∀ r, E.adm w e r → Q (.ok r) (E.eff w e r) := by simp [ask]

/-- An operation in front of a sequence. -/
theorem wp_modify_bind {Q : Except String α → σ → Prop} {f : σ → σ}
    {k : Unit → Prog σ ε ρ α} {w : σ} :
    wp E Q (modify f >>= k) w ↔ wp E Q (k ()) (f w) := wp_act

/-- A read in front of a sequence. -/
theorem wp_read_bind {Q : Except String β → σ → Prop} {f : σ → α}
    {k : α → Prog σ ε ρ β} {w : σ} :
    wp E Q (read f >>= k) w ↔ wp E Q (k (f w)) w := wp_act

/-- What is established may be weakened. -/
theorem wp_mono {Q Q' : Except String α → σ → Prop}
    (hQ : ∀ r w, Q r w → Q' r w) {p : Prog σ ε ρ α} {w : σ}
    (h : wp E Q p w) : wp E Q' p w := rg_mono hQ h

/-- The solo form of `rg_of_acts`. -/
theorem wp_of_acts {K : (σ → σ) → Prop} {C : ε → Prop} {I : σ → Prop}
    (hK : ∀ f, K f → ∀ w, I w → I (f w))
    (hC : ∀ e, C e → ∀ w r, I w → E.adm w e r → I (E.eff w e r))
    {p : Prog σ ε ρ α} (hp : p.Acts K C) {w : σ} (hw : I w) :
    wp E (fun r w => (∃ a, r = .ok a) ∧ I w) p w :=
  rg_of_acts (fun _ _ h he => he ▸ h) (fun f hf w h => ⟨trivial, hK f hf w h⟩)
    (fun e he w r h hr => ⟨trivial, hC e he w r h hr⟩) hp hw

-- =============================================== what programs can do

/-- Every action of the handler is of kind `K` and every call of kind
`C`, on every path; it may end in an exception. -/
def Only (K : (σ → σ) → Prop) (C : ε → Prop) : Prog σ ε ρ α → Prop
  | .pure _ => True
  | .throw _ => True
  | .act f k => K f ∧ ∀ s, (k s).Only K C
  | .call e k => C e ∧ ∀ r, (k r).Only K C

section only

variable {K : (σ → σ) → Prop} {C : ε → Prop}

/-- A program that does not throw may do only what it does. -/
theorem Acts.only {p : Prog σ ε ρ α} (hp : p.Acts K C) : p.Only K C := by
  induction p with
  | pure a => trivial
  | throw m => trivial
  | act f k ih => exact ⟨hp.1, fun s => ih s (hp.2 s)⟩
  | call e k ih => exact ⟨hp.1, fun r => ih r (hp.2 r)⟩

/-- A sequence does only what its parts may do. -/
theorem Only.bind {p : Prog σ ε ρ α} {g : α → Prog σ ε ρ β}
    (hp : p.Only K C) (hg : ∀ a, (g a).Only K C) :
    (p >>= g).Only K C := by
  induction p with
  | pure a => exact hg a
  | throw m => trivial
  | act f k ih => exact ⟨hp.1, fun s => ih s (hp.2 s)⟩
  | call e k ih => exact ⟨hp.1, fun r => ih r (hp.2 r)⟩

/-- A result does nothing. -/
theorem Only.pure (a : α) : (Pure.pure a : Prog σ ε ρ α).Only K C := trivial

/-- Nor does an exception. -/
theorem Only.throw (m : String) : (Prog.throw m : Prog σ ε ρ α).Only K C :=
  trivial

/-- A read, and what follows. -/
theorem Only.read (hid : K id) {f : σ → α} {k : α → Prog σ ε ρ β}
    (hk : ∀ a, (k a).Only K C) : (Prog.read f >>= k).Only K C :=
  ⟨hid, fun s => hk (f s)⟩

/-- An operation, and what follows. -/
theorem Only.modify {f : σ → σ} (hf : K f) {k : Unit → Prog σ ε ρ β}
    (hk : (k ()).Only K C) : (Prog.modify f >>= k).Only K C :=
  ⟨hf, fun _ => hk⟩

/-- A call, and what follows. -/
theorem Only.ask {e : ε} (he : C e) {k : ρ e → Prog σ ε ρ β}
    (hk : ∀ r, (k r).Only K C) : (Prog.ask e >>= k).Only K C :=
  ⟨he, hk⟩

/-- A handler that only does what stays within a preorder stays within
it, however it ends. -/
theorem Only.wp {G : σ → σ → Prop} (hrefl : ∀ w, G w w)
    (htrans : ∀ a b c, G a b → G b c → G a c)
    (hK : ∀ f, K f → ∀ w, G w (f w))
    (hC : ∀ e, C e → ∀ w r, G w (E.eff w e r)) {p : Prog σ ε ρ α}
    (hp : p.Only K C) (w : σ) : Prog.wp E (fun _ w' => G w w') p w := by
  induction p generalizing w with
  | pure a => exact wp_pure.mpr (hrefl w)
  | throw m => exact wp_throw.mpr (hrefl w)
  | act f k ih =>
      refine wp_act.mpr (wp_mono ?_ (ih w (hp.2 w) (f w)))
      exact fun _ w' h => htrans _ _ _ (hK f hp.1 w) h
  | call e k ih =>
      refine wp_call.mpr fun r _ => wp_mono ?_ (ih r (hp.2 r) _)
      exact fun _ w' h => htrans _ _ _ (hC e hp.1 w r) h

end only

/-- The weakest precondition is sound for the solo run against any
admissible oracle. -/
theorem wp_run {o : Oracle σ ε ρ} (ho : o.Admissible E)
    {Q : Except String α → σ → Prop} {p : Prog σ ε ρ α} {w : σ}
    (h : wp E Q p w) : Q (p.run E o w).1 (p.run E o w).2 := by
  induction p generalizing w with
  | pure a => simpa [run] using h
  | throw m => simpa [run] using h
  | act f k ih => exact ih w (wp_act.mp h)
  | call e k ih => exact ih _ (wp_call.mp h _ (ho w e))

end Prog

end Interact

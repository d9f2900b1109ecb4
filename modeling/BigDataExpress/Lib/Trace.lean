/-
Trace specs: what a handler that runs alone adds to a record of the
past, and that it keeps the rest of what one looks at.

`tr` reads the record off the state, and `fr` is the frame: the part of
the state that the handlers in question leave as it is. `Emits tr fr p P`
says that `p` ends without an exception, keeps the frame, and adds some
`l` to the record such that `P` holds of its result and `l`. Specs of
handlers in sequence add up by `Emits.bind`, and are used in the middle
of a solo run by `Since.step`.
-/
import BigDataExpress.Lib.Prog

namespace Interact

variable {σ ε τ φ α β : Type} {ρ : ε → Type}

/-- The handler ends with some result, keeps the frame, and adds to the
record what `P` says of the result. -/
structure Emits (E : Env σ ε ρ) (tr : σ → List τ) (fr : σ → φ)
    (p : Prog σ ε ρ α) (P : α → List τ → Prop) : Prop where
  wp : ∀ w, Prog.wp E (fun r w' => fr w' = fr w ∧ ∃ a l, r = .ok a
    ∧ tr w' = tr w ++ l ∧ P a l) p w

namespace Emits

variable {E : Env σ ε ρ} {tr : σ → List τ} {fr : σ → φ}

theorem pure {a : α} {P : α → List τ → Prop} (h : P a []) :
    Emits E tr fr (Pure.pure a : Prog σ ε ρ α) P := by
  refine ⟨fun w => ?_⟩
  rw [Prog.wp_pure']
  exact ⟨rfl, a, [], rfl, (List.append_nil _).symm, h⟩

theorem mono {p : Prog σ ε ρ α} {P P' : α → List τ → Prop}
    (h : Emits E tr fr p P) (hP : ∀ a l, P a l → P' a l) :
    Emits E tr fr p P' := by
  refine ⟨fun w => ?_⟩
  refine Prog.wp_mono ?_ (h.wp w)
  rintro r w' ⟨hfr, a, l, hr, hl, hp⟩
  exact ⟨hfr, a, l, hr, hl, hP a l hp⟩

theorem bind {p : Prog σ ε ρ α} {k : α → Prog σ ε ρ β}
    {P : α → List τ → Prop} {P' : β → List τ → Prop}
    (hp : Emits E tr fr p P)
    (hk : ∀ a l, P a l → Emits E tr fr (k a) fun b l' => P' b (l ++ l')) :
    Emits E tr fr (p >>= k) P' := by
  refine ⟨fun w => ?_⟩
  rw [Prog.wp_bind']
  refine Prog.wp_mono ?_ (hp.wp w)
  rintro r w' ⟨hfr, a, l, rfl, hl, ha⟩
  refine Prog.wp_mono ?_ ((hk a l ha).wp w')
  rintro r w'' ⟨hfr', b, l', hr, hl', hb⟩
  refine ⟨hfr'.trans hfr, b, l ++ l', hr, ?_, hb⟩
  rw [hl', hl, List.append_assoc]

/-- A step that adds nothing to the record, first in a sequence. -/
theorem skip {p : Prog σ ε ρ α} {k : α → Prog σ ε ρ β}
    {P : β → List τ → Prop} (hp : Emits E tr fr p fun _ l => l = [])
    (hk : ∀ a, Emits E tr fr (k a) P) : Emits E tr fr (p >>= k) P := by
  refine hp.bind fun a l hl => ?_
  rw [hl]
  exact hk a

/-- Reading the state. -/
theorem read {f : σ → α} :
    Emits E tr fr (Prog.read f : Prog σ ε ρ α) fun _ l => l = [] := by
  refine ⟨fun w => ?_⟩
  rw [Prog.wp_read]
  exact ⟨rfl, f w, [], rfl, (List.append_nil _).symm, rfl⟩

/-- A change outside the record and the frame. -/
theorem modify {f : σ → σ} (htr : ∀ w, tr (f w) = tr w)
    (hfr : ∀ w, fr (f w) = fr w) :
    Emits E tr fr (Prog.modify f : Prog σ ε ρ Unit) fun _ l => l = [] := by
  refine ⟨fun w => ?_⟩
  rw [Prog.wp_modify]
  exact ⟨hfr w, (), [], rfl, by rw [htr, List.append_nil], rfl⟩

/-- A call, which shows in the record as `item`. -/
theorem ask {e : ε} {item : ρ e → List τ}
    (htr : ∀ w r, tr (E.eff w e r) = tr w ++ item r)
    (hfr : ∀ w r, fr (E.eff w e r) = fr w) :
    Emits E tr fr (Prog.ask e : Prog σ ε ρ (ρ e)) fun r l => l = item r := by
  refine ⟨fun w => ?_⟩
  rw [Prog.wp_ask]
  exact fun r _ => ⟨hfr w r, r, item r, rfl, htr w r, rfl⟩

end Emits

/-- Since `w₀` the frame was kept, and `l` was added to the record: what
is known in the middle of a solo run. -/
structure Since (tr : σ → List τ) (fr : σ → φ) (w₀ : σ) (l : List τ)
    (w : σ) : Prop where
  frame : fr w = fr w₀
  record : tr w = tr w₀ ++ l

namespace Since

variable {E : Env σ ε ρ} {tr : σ → List τ} {fr : σ → φ} {w₀ w : σ}
  {l : List τ}

theorem start (w₀ : σ) : Since tr fr w₀ [] w₀ :=
  ⟨rfl, (List.append_nil _).symm⟩

/-- The next handler of a sequence. -/
theorem step {p : Prog σ ε ρ α} {k : α → Prog σ ε ρ β}
    {P : α → List τ → Prop} {Q : Except String β → σ → Prop}
    (hw : Since tr fr w₀ l w) (hp : Emits E tr fr p P)
    (hk : ∀ a l' w', P a l' → Since tr fr w₀ (l ++ l') w' →
      Prog.wp E Q (k a) w') : Prog.wp E Q (p >>= k) w := by
  rw [Prog.wp_bind']
  refine Prog.wp_mono ?_ (hp.wp w)
  rintro r w' ⟨hfr, a, l', rfl, hl, ha⟩
  refine hk a l' w' ha ⟨hfr.trans hw.frame, ?_⟩
  rw [hl, hw.record, List.append_assoc]

/-- The next handler adds nothing to the record. -/
theorem skip {p : Prog σ ε ρ α} {k : α → Prog σ ε ρ β}
    {Q : Except String β → σ → Prop} (hw : Since tr fr w₀ l w)
    (hp : Emits E tr fr p fun _ l => l = [])
    (hk : ∀ a w', Since tr fr w₀ l w' → Prog.wp E Q (k a) w') :
    Prog.wp E Q (p >>= k) w := by
  refine hw.step hp ?_
  rintro a l' w' rfl hw'
  rw [List.append_nil] at hw'
  exact hk a w' hw'

end Since

end Interact

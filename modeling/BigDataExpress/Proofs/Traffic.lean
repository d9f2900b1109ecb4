/-
The rates of an interface over a run of updates.

The record an update starts from is the one the last update left, and
this holds rates, not counters. So the first update is right, whatever
the counters, and a later one subtracts the rate of before from the new
counter (`kept_next`). By induction over the updates the rates are right
for ever exactly when this difference does not show after the division,
which is a condition on the counters alone.
-/
import BigDataExpress.Agent.Traffic
import BigDataExpress.Proofs.Serve

namespace BigDataExpress

open Traffic

/-- The eight counters. -/
inductive Counter
  | rxPackets | txPackets | rxBytes | txBytes
  | rxErrors | txErrors | rxDropped | txDropped
  deriving DecidableEq

namespace Counter

def get (s : LinkStats) : Counter → UInt32
  | .rxPackets => s.rxPackets
  | .txPackets => s.txPackets
  | .rxBytes => s.rxBytes
  | .txBytes => s.txBytes
  | .rxErrors => s.rxErrors
  | .txErrors => s.txErrors
  | .rxDropped => s.rxDropped
  | .txDropped => s.txDropped

/-- The name of a counter in a status. -/
def key : Counter → String
  | .rxPackets => "rx-packets"
  | .txPackets => "tx-packets"
  | .rxBytes => "rx-bytes"
  | .txBytes => "tx-bytes"
  | .rxErrors => "rx-errors"
  | .txErrors => "tx-errors"
  | .rxDropped => "rx-dropped"
  | .txDropped => "tx-dropped"

/-- What is put under the name: a drop is taken for an error. -/
def reported : Counter → Counter
  | .rxDropped => .rxErrors
  | .txDropped => .txErrors
  | x => x

theorem get_updateStats (stat newstat : LinkStats) (x : Counter) :
    get (updateStats stat newstat) x
      = ratePerSecond (get newstat x - get stat x) := by
  cases x <;> rfl

/-- The rate an interface's status has under a counter's name. -/
def ofStatus (status : Json) (x : Counter) : Except String Json := do
  let rate ← status.get "rate"
  rate.get x.key

theorem ofStatus_getInterfaceStatus {t : Traffic} {iface : String}
    {rate : LinkStats} (h : t.linkRates iface = some rate) (x : Counter) :
    ofStatus (getInterfaceStatus iface t) x
      = .ok (number (get rate x.reported)) := by
  have hrate : (getInterfaceStatus iface t).get "rate"
      = .ok (rateJson rate) := by
    unfold getInterfaceStatus
    rw [h]
    simp [Json.object, Json.lookup_assign]
  unfold ofStatus
  rw [hrate]
  show (rateJson rate).get x.key = _
  cases x <;> simp [rateJson, Json.object, Json.lookup_assign, key, reported,
    get]

end Counter

-- =============================================================== the run

section run

variable (iface : String) (c : Nat → LinkStats)
  (others : Nat → List ({i : String // i ≠ iface} × LinkStats))

/-- Updates of other interfaces. -/
def updateOthers (l : List ({i : String // i ≠ iface} × LinkStats))
    (t : Traffic) : Traffic :=
  l.foldl (fun t u => updateInterfaceTraffic u.1.1 u.2 t) t

/-- The traffic after so many updates of an interface, with updates of
others in between. -/
def trafficAfter : Nat → Traffic
  | 0 => updateOthers iface (others 0) (initInterface iface (c 0) {})
  | k + 1 =>
      updateOthers iface (others (k + 1))
        (updateInterfaceTraffic iface (c (k + 1)) (trafficAfter k))

/-- The rate of a counter over the interval before an update. -/
def rateAt (k : Nat) (x : Counter) : UInt32 :=
  ratePerSecond (x.get (c (k + 1)) - x.get (c k))

variable {iface c others}

theorem linkRates_updateOthers
    (l : List ({i : String // i ≠ iface} × LinkStats)) (t : Traffic) :
    (updateOthers iface l t).linkRates iface = t.linkRates iface := by
  induction l generalizing t with
  | nil => rfl
  | cons u l ih =>
      refine (ih _).trans ?_
      unfold updateInterfaceTraffic
      exact if_neg fun h => u.1.2 h.symm

theorem kept_init :
    (trafficAfter iface c others 0).linkRates iface = some (c 0) := by
  unfold trafficAfter
  rw [linkRates_updateOthers]
  exact if_pos rfl

/-- What an update leaves, off what was there. -/
theorem kept_next (k : Nat) {s : LinkStats}
    (h : (trafficAfter iface c others k).linkRates iface = some s) :
    (trafficAfter iface c others (k + 1)).linkRates iface
      = some (updateStats s (c (k + 1))) := by
  rw [trafficAfter, linkRates_updateOthers]
  unfold updateInterfaceTraffic
  dsimp only
  rw [if_pos rfl, h]
  rfl

variable (iface c others) in
/-- There is a record after every update. -/
theorem kept_exists (k : Nat) :
    ∃ s, (trafficAfter iface c others k).linkRates iface = some s := by
  induction k with
  | zero => exact ⟨_, kept_init⟩
  | succ k ih =>
      obtain ⟨s, hs⟩ := ih
      exact ⟨_, kept_next k hs⟩

/-- The interface has this record, and reports it under the names of the
counters. -/
def HasRates (t : Traffic) (iface : String) (rate : Counter → UInt32) :
    Prop :=
  (∃ s, t.linkRates iface = some s ∧ ∀ x : Counter, x.get s = rate x)
    ∧ ∀ x : Counter, x.ofStatus (getInterfaceStatus iface t)
        = .ok (number (rate x))

theorem number_injective {m n : UInt32} (h : number m = number n) :
    m = n := by
  unfold number at h
  injection h with h
  exact UInt32.toNat_inj.1 (Int.ofNat_inj.1 h)

/-- Whether the rates are right is decided by the record, and by whether
errors and drops have one rate. -/
theorem hasRates_iff {t : Traffic} {s : LinkStats}
    (h : t.linkRates iface = some s) (rate : Counter → UInt32) :
    HasRates t iface rate ↔ (∀ x : Counter, x.get s = rate x)
      ∧ rate .rxDropped = rate .rxErrors
      ∧ rate .txDropped = rate .txErrors := by
  constructor
  · intro hr
    obtain ⟨⟨s', hs', hget⟩, hrep⟩ := hr
    rw [h] at hs'
    injection hs' with hs'
    subst hs'
    have hdrop : ∀ x : Counter, rate x.reported = rate x := by
      intro x
      have hx := hrep x
      rw [Counter.ofStatus_getInterfaceStatus h] at hx
      injection hx with hx
      rw [← hget x.reported]
      exact number_injective hx
    exact ⟨hget, (hdrop .rxDropped).symm, (hdrop .txDropped).symm⟩
  · intro hr
    obtain ⟨hget, hrx, htx⟩ := hr
    refine ⟨⟨s, h, hget⟩, ?_⟩
    intro x
    rw [Counter.ofStatus_getInterfaceStatus h, hget]
    cases x with
    | rxDropped => rw [hrx]; rfl
    | txDropped => rw [htx]; rfl
    | _ => rfl

/-- The counters for which it does not matter that a rate is subtracted:
the rates come out the same, and errors and drops have one rate. -/
def Forgiving (c : Nat → LinkStats) : Prop :=
  (∀ k (x : Counter), ratePerSecond (x.get (c (k + 2)) - rateAt c k x)
      = rateAt c (k + 1) x)
    ∧ ∀ k, rateAt c k .rxDropped = rateAt c k .rxErrors
      ∧ rateAt c k .txDropped = rateAt c k .txErrors

/-- The interface has the rates of the last interval after every update,
kept and reported, exactly when its counters are forgiving. -/
theorem interface_rates_iff (iface : String) (c : Nat → LinkStats)
    (others : Nat → List ({i : String // i ≠ iface} × LinkStats)) :
    (∀ k, HasRates (trafficAfter iface c others (k + 1)) iface (rateAt c k))
      ↔ Forgiving c := by
  -- the record after an update that came upon the right rates
  have hnext : ∀ k s, (trafficAfter iface c others (k + 1)).linkRates iface
      = some s → (∀ x : Counter, x.get s = rateAt c k x) → ∀ x : Counter,
      x.get (updateStats s (c (k + 2)))
        = ratePerSecond (x.get (c (k + 2)) - rateAt c k x) := by
    intro k s _ hget x
    rw [Counter.get_updateStats, hget]
  constructor
  · intro h
    refine ⟨?_, ?_⟩
    · intro k x
      obtain ⟨s, hs⟩ := kept_exists iface c others (k + 1)
      have hget := ((hasRates_iff hs _).1 (h k)).1
      have hs' := kept_next (k + 1) hs
      have hget' := ((hasRates_iff hs' _).1 (h (k + 1))).1
      rw [← hnext k s hs hget x]
      exact hget' x
    · intro k
      obtain ⟨s, hs⟩ := kept_exists iface c others (k + 1)
      exact ((hasRates_iff hs _).1 (h k)).2
  · intro h
    -- the record is right after every update, by induction
    have hget : ∀ k, ∃ s, (trafficAfter iface c others (k + 1)).linkRates
        iface = some s ∧ ∀ x : Counter, x.get s = rateAt c k x := by
      intro k
      induction k with
      | zero =>
          refine ⟨_, kept_next 0 kept_init, ?_⟩
          intro x
          exact Counter.get_updateStats _ _ x
      | succ k ih =>
          obtain ⟨s, hs, hget⟩ := ih
          refine ⟨_, kept_next (k + 1) hs, ?_⟩
          intro x
          rw [hnext k s hs hget, h.1]
    intro k
    obtain ⟨s, hs, hk⟩ := hget k
    exact (hasRates_iff hs _).2 ⟨hk, h.2 k⟩

/-- An interface that receives 120000 bytes in every interval. -/
def steady (k : Nat) : LinkStats :=
  { rxBytes := UInt32.ofNat (120000 * k) }

/-- Its rate is 1000 bytes in a second, but the second update keeps
1991. -/
theorem steady_rate_drifts :
    ¬ ∀ k, HasRates (trafficAfter "eth0" steady (fun _ => []) (k + 1))
      "eth0" (rateAt steady k) := by
  intro h
  obtain ⟨⟨s, hs, hget⟩, _⟩ := h 1
  have hkept : (trafficAfter "eth0" steady (fun _ => []) 2).linkRates "eth0"
      = some { rxBytes := 1991 } := by decide +kernel
  rw [hkept] at hs
  injection hs with hs
  subst hs
  have hrate := hget .rxBytes
  exact absurd hrate (by decide +kernel)

end run

end BigDataExpress

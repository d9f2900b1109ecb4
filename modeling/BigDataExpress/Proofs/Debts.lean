/-
The ledger of bytes: what the blocks have, what the counters of sjobs and
rawjobs say, and what the handlers at work owe.

A handler adds to the counters one after the other, and in between the
sums do not agree. What is missing is read off the phases of the handlers
(`owesSjob`, `owesRawjob`), and the ledger (`Balanced`) is that every
counter and its debts make up the bytes of the blocks.
-/
import BigDataExpress.Proofs.Base
import Mathlib.Algebra.Group.Pi.Lemmas

namespace BigDataExpress

open Interact Collection

-- ============================================================= the ledger

/-- The bytes of the blocks of an sjob. -/
def Sjob.bytes (x : Sjob) : Int := (x.blocks.map (·.txBytes)).sum

/-- The bytes of the blocks of each rawjob. -/
def World.jobBytes (w : World) : Oid → Int :=
  (w.sjobs.map fun x => Pi.single x.rawjob x.bytes).sum

/-- Every counter and what is owed to it make up the bytes of the
blocks. -/
structure World.Balanced (w : World) (S R : Oid → Int) : Prop where
  sjobs : ∀ x ∈ w.sjobs, x.txBytes + S x.id = x.bytes
  rawjobs : ∀ r ∈ w.rawjobs, r.txBytes + R r.id = w.jobBytes r.id

theorem Sjob.bytes_tallies (x : Sjob) :
    x.bytes = ((x.blocks.map Block.tally).map (·.2.2)).sum := by
  rw [List.map_map]
  rfl

theorem Sjob.bytes_core {x y : Sjob} (h : y.core = x.core) :
    y.bytes = x.bytes := by
  rw [Sjob.bytes_tallies, Sjob.bytes_tallies]
  exact congrArg (fun c => (c.2.2.2.2.map (·.2.2)).sum) h

/-- The sum for each rawjob, of what sjobs of it have. -/
theorem sum_single_filter (l : List Sjob) (g : Sjob → Int) (rid : Oid) :
    (l.map fun x => (Pi.single x.rawjob (g x) : Oid → Int)).sum rid
      = ((l.filter (·.rawjob == rid)).map g).sum := by
  induction l with
  | nil => rfl
  | cons x l ih =>
      rw [List.map_cons, List.sum_cons, Pi.add_apply, ih]
      by_cases hx : x.rawjob = rid
      · subst hx
        rw [Pi.single_eq_same, List.filter_cons_of_pos (by simp),
          List.map_cons, List.sum_cons]
      · rw [Pi.single_eq_of_ne (Ne.symm hx), zero_add,
          List.filter_cons_of_neg (by simpa using hx)]

/-- Without debts the counters agree. -/
theorem World.Balanced.settled {w : World} (h : w.Balanced 0 0) :
    (∀ x ∈ w.sjobs, x.txBytes = (x.blocks.map (·.txBytes)).sum)
      ∧ ∀ r ∈ w.rawjobs, r.txBytes
        = ((w.sjobs.filter (·.rawjob == r.id)).map (·.txBytes)).sum := by
  have hs : ∀ x ∈ w.sjobs, x.txBytes = x.bytes := by
    intro x hx
    have := h.sjobs x hx
    rwa [Pi.zero_apply, add_zero] at this
  refine ⟨hs, fun r hr => ?_⟩
  have := h.rawjobs r hr
  rw [Pi.zero_apply, add_zero, World.jobBytes, sum_single_filter] at this
  rw [this]
  refine congrArg List.sum (List.map_congr_left fun x hx => ?_)
  exact (hs x (List.mem_of_mem_filter hx)).symm

section ledger

variable {w w' : World} {S R : Oid → Int}

/-- The ledger reads the cores. -/
theorem World.Balanced.core (h : w.Balanced S R)
    (hs : w'.sjobs.map Sjob.core = w.sjobs.map Sjob.core)
    (hr : w'.rawjobs.map Rawjob.core = w.rawjobs.map Rawjob.core) :
    w'.Balanced S R := by
  have hjob : w'.jobBytes = w.jobBytes := by
    unfold World.jobBytes
    have hc : ∀ l : List Sjob, (l.map fun x =>
        (Pi.single x.rawjob x.bytes : Oid → Int))
        = (l.map Sjob.core).map fun c =>
          Pi.single c.2.1 (c.2.2.2.2.map (·.2.2)).sum := by
      intro l
      rw [List.map_map]
      refine List.map_congr_left fun x _ => ?_
      rw [Sjob.bytes_tallies]
      rfl
    rw [hc, hc, hs]
  constructor
  · intro x hx
    have hm : x.core ∈ w'.sjobs.map Sjob.core := List.mem_map_of_mem hx
    rw [hs, List.mem_map] at hm
    obtain ⟨y, hy, hcore⟩ := hm
    have hid : y.id = x.id := congrArg Prod.fst hcore
    have htx : y.txBytes = x.txBytes := congrArg (·.2.2.1) hcore
    rw [← hid, ← htx, ← Sjob.bytes_core hcore]
    exact h.sjobs y hy
  · intro r hr'
    have hm : r.core ∈ w'.rawjobs.map Rawjob.core := List.mem_map_of_mem hr'
    rw [hr, List.mem_map] at hm
    obtain ⟨r₀, hr₀, hcore⟩ := hm
    have hid : r₀.id = r.id := congrArg Prod.fst hcore
    have htx : r₀.txBytes = r.txBytes := congrArg Prod.snd hcore
    rw [hjob, ← hid, ← htx]
    exact h.rawjobs r₀ hr₀

/-- A block is found in its sjob. -/
theorem World.find?_hasBlock (hwf : w.WF) {z : Sjob} (hz : z ∈ w.sjobs)
    {b : Oid} (hb : b ∈ z.blockIds) :
    w.sjobs.find? (Sjob.hasBlock b) = some z := by
  obtain ⟨y, hy⟩ : ∃ y, w.sjobs.find? (Sjob.hasBlock b) = some y := by
    rw [← Option.isSome_iff_exists, List.find?_isSome]
    exact ⟨z, hz, (Sjob.hasBlock_iff b z).mpr hb⟩
  have hyb := (Sjob.hasBlock_iff b y).mp (List.find?_some hy)
  rw [hy, hwf.eq_of_block hz (List.mem_of_find?_eq_some hy) hb hyb]

theorem Sjob.bytes_count {z : Sjob} (hnd : z.blockIds.Nodup) {b : Oid}
    (hb : b ∈ z.blockIds) (v : Int) :
    (z.onBlock b fun k => { k with txBytes := k.txBytes + v }).bytes
      = z.bytes + v := by
  obtain ⟨k, hk, rfl⟩ := List.mem_map.mp hb
  unfold Sjob.bytes Sjob.onBlock
  rw [sum_updateOne (find?_key Block.id hnd hk)]
  simp

/-- Bytes of a block are counted: they are owed to its sjob and to its
rawjob. -/
theorem World.Balanced.block (h : w.Balanced S R) (hwf : w.WF) {z : Sjob}
    (hz : z ∈ w.sjobs) {b : Oid} (hb : b ∈ z.blockIds) (v : Int) :
    (w.incrementSjobBlockField b v).Balanced (S + Pi.single z.id v)
      (R + Pi.single z.rawjob v) := by
  have hset := World.sets_updateBlock hwf hz rfl hb
    fun k => { k with txBytes := k.txBytes + v }
  have hbytes := Sjob.bytes_count (hwf.blockIds_nodup hz) hb v
  constructor
  · intro x hx
    rcases (hset.mem_iff hz rfl).mp hx with rfl | ⟨hx, hne⟩
    · rw [hbytes, ← h.sjobs z hz]
      show z.txBytes + (S z.id + (Pi.single z.id v : Oid → Int) z.id) = _
      rw [Pi.single_eq_same]
      omega
    · rw [Pi.add_apply, Pi.single_eq_of_ne hne, add_zero]
      exact h.sjobs x hx
  · intro r hr
    have hjob : (w.incrementSjobBlockField b v).jobBytes
        = w.jobBytes + Pi.single z.rawjob v := by
      unfold World.jobBytes
      refine (sum_updateOne (World.find?_hasBlock hwf hz hb)).trans ?_
      have hmore : (Pi.single z.rawjob (z.bytes + v) : Oid → Int)
          = Pi.single z.rawjob z.bytes + Pi.single z.rawjob v :=
        Pi.single_add ..
      rw [hbytes]
      show _ + ((Pi.single z.rawjob (z.bytes + v) : Oid → Int) - _) = _
      rw [hmore, add_sub_cancel_left]
    rw [hjob, Pi.add_apply, Pi.add_apply, ← add_assoc, h.rawjobs r hr]

/-- What is added to the counter of an sjob is no longer owed to it. -/
theorem World.Balanced.sjob (h : w.Balanced S R) (hwf : w.WF) (i : Oid)
    (v : Int) :
    (w.incrementSjobTxBytes i v).Balanced (S - Pi.single i v) R := by
  constructor
  · intro x hx
    rw [World.incrementSjobTxBytes, World.updateSjob_id hwf,
      List.mem_map] at hx
    obtain ⟨y, hy, rfl⟩ := hx
    have hy' := h.sjobs y hy
    unfold Sjob.onId
    split
    · rename_i hi
      show y.txBytes + v + (S y.id - (Pi.single i v : Oid → Int) y.id)
        = y.bytes
      rw [hi, Pi.single_eq_same, ← hy', hi]
      omega
    · rename_i hi
      rw [Pi.sub_apply, Pi.single_eq_of_ne hi, sub_zero]
      exact hy'
  · intro r hr
    have hjob : (w.incrementSjobTxBytes i v).jobBytes = w.jobBytes := by
      refine congrArg List.sum (map_updateOne ?_ w.sjobs)
      exact fun _ => rfl
    rw [hjob]
    exact h.rawjobs r hr

theorem World.Balanced.rawjob (h : w.Balanced S R) (hwf : w.WF) (i : Oid)
    (v : Int) :
    (w.incrementRawjobField i v).Balanced S (R - Pi.single i v) := by
  refine ⟨h.sjobs, fun r hr => ?_⟩
  have hmap : (w.incrementRawjobField i v).rawjobs = w.rawjobs.map fun r =>
      if r.id = i then { r with txBytes := r.txBytes + v } else r :=
    updateOne_key hwf.rawjobs
  rw [hmap, List.mem_map] at hr
  obtain ⟨r₀, hr₀, rfl⟩ := hr
  have hold := h.rawjobs r₀ hr₀
  show _ = w.jobBytes _
  split
  · rename_i hi
    show r₀.txBytes + v + (R r₀.id - (Pi.single i v : Oid → Int) r₀.id)
      = w.jobBytes r₀.id
    rw [hi, Pi.single_eq_same, ← hi, ← hold]
    omega
  · rename_i hi
    rw [Pi.sub_apply, Pi.single_eq_of_ne hi, sub_zero]
    exact hold

end ledger

-- ============================================================== the debts

namespace HandlerPhase

/-- What the handler has counted for blocks and not for their sjob. -/
def owesSjob : HandlerPhase → Oid → Int
  | count x _ k .sjob => Pi.single x.id (k.size - k.txBytes)
  | uncount x _ k .sjob => Pi.single x.id (-k.size)
  | owing _ x d _ _ => Pi.single x.id d
  | _ => 0

/-- What the handler has counted for blocks and not for their rawjob. -/
def owesRawjob : HandlerPhase → Oid → Int
  | count x _ k .sjob | count x _ k .rawjob =>
      Pi.single x.rawjob (k.size - k.txBytes)
  | uncount x _ k .sjob | uncount x _ k .rawjob =>
      Pi.single x.rawjob (-k.size)
  | summing rid _ _ acc => Pi.single rid acc
  | rated rid _ _ _ _ acc => Pi.single rid acc
  | owing rid _ d _ acc => Pi.single rid (acc + d)
  | _ => 0

end HandlerPhase

/-- What the handlers at work owe to sjobs. -/
def sjobDebts (m : List (HandlerId × HandlerPhase)) : Oid → Int :=
  (m.map fun q => q.2.owesSjob).sum

/-- What the handlers at work owe to rawjobs. -/
def rawjobDebts (m : List (HandlerId × HandlerPhase)) : Oid → Int :=
  (m.map fun q => q.2.owesRawjob).sum

section debts

variable {m₁ m₂ : List (HandlerId × HandlerPhase)} {h : HandlerId}
  {s : HandlerPhase}

theorem sjobDebts_around : sjobDebts (m₁ ++ (h, s) :: m₂)
    = sjobDebts (m₁ ++ m₂) + s.owesSjob := by
  unfold sjobDebts
  simp only [List.map_append, List.map_cons, List.sum_append, List.sum_cons]
  abel

theorem rawjobDebts_around : rawjobDebts (m₁ ++ (h, s) :: m₂)
    = rawjobDebts (m₁ ++ m₂) + s.owesRawjob := by
  unfold rawjobDebts
  simp only [List.map_append, List.map_cons, List.sum_append, List.sum_cons]
  abel

end debts

end BigDataExpress

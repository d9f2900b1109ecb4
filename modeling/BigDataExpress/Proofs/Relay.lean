/-
What the reader accepts, and what becomes of it on its way on.

A value that was read is written again when a message is passed on: the
server relays what an agent answered, and stores and reads parameters of
jobs. What was read has 64-bit integers, objects with each key once, and
is nested no deeper than the reader allows (`parse_sound`). So it can
always be read again. Its doubles were read from a text once; one whose
digits end before the point is an integer on the next hop, and from then
on nothing changes any more (`parse_relayed`).

A message of the RPC protocol puts its body one level down, so a body may
be nested one level less (`received_request`, `received_response`).
-/
import BigDataExpress.Proofs.JsonText
import BigDataExpress.Utils.Mqtt

namespace BigDataExpress

namespace Json

open Interact

open Text Reader FastWriter

-- ============================================================== integers

/-- Decoding stops at the limit. -/
theorem decodeDigits_le {limit n : Nat} {text : Chars} {value : Nat}
    (hvalue : value ≤ limit) (h : decodeDigits limit value text = some n) :
    n ≤ limit := by
  induction text generalizing value with
  | nil =>
      injection h with h
      omega
  | cons c text ih =>
      by_cases hc : c.isDigit = true
      · rw [decodeDigits, hc] at h
        change (if _ then _ else _) = _ at h
        by_cases hstop : limit / 10 ≤ value ∧ (limit / 10 < value ∨ text ≠ []
            ∨ limit % 10 < c.toNat - 48)
        · rw [if_pos hstop] at h
          cases h
        · rw [if_neg hstop] at h
          apply ih _ h
          have hnine : c.toNat - 48 ≤ 9 := by
            have := Char.isDigit_iff_toNat.1 hc
            have hzero : '0'.toNat = 48 := rfl
            have hnine : '9'.toNat = 57 := rfl
            omega
          by_cases hlt : value < limit / 10
          · omega
          · have hlast : ¬ limit % 10 < c.toNat - 48 :=
              fun h => hstop ⟨by omega, .inr (.inr h)⟩
            have hequal : ¬ limit / 10 < value :=
              fun h => hstop ⟨by omega, .inl h⟩
            omega
      · rw [decodeDigits] at h
        simp only [hc] at h
        cases h

/-- A decoded integer has 64 bits. -/
theorem decodeInteger_fits {text : Chars} {n : Int}
    (h : decodeInteger text = some n) : Fits n := by
  unfold decodeInteger at h
  split at h
  · obtain ⟨m, hm, rfl⟩ := Option.map_eq_some_iff.1 h
    have hle := decodeDigits_le (Nat.zero_le _) hm
    constructor <;> omega
  · obtain ⟨m, hm, rfl⟩ := Option.map_eq_some_iff.1 h
    have hle := decodeDigits_le (Nat.zero_le _) hm
    show -2 ^ 63 ≤ (m : Int) ∧ (m : Int) < 2 ^ 64
    omega

/-- A double that was read from a text. -/
def Extracted (extract : Chars → Option Float) (x : Float) : Prop :=
  ∃ text, extract text = some x

/-- A decoded number is an integer that fits or a double that was
extracted. -/
theorem decodeNumber_made {extract : Chars → Option Float} {text : Chars}
    {v : Json} (h : decodeNumber extract text = some v) :
    Made (Extracted extract) v ∧ depth v = 1 := by
  unfold decodeNumber at h
  cases hn : decodeInteger text with
  | some n =>
      rw [hn] at h
      injection h with h
      subst h
      exact ⟨.int (decodeInteger_fits hn), rfl⟩
  | none =>
      rw [hn] at h
      obtain ⟨x, hx, rfl⟩ := Option.map_eq_some_iff.1 h
      exact ⟨.real ⟨text, hx⟩, rfl⟩

-- =============================================================== members

/-- After an assignment there is the new member and the old ones. -/
theorem mem_assign {key : String} {v : Json} {fields : List (String × Json)}
    {f : String × Json} (h : f ∈ assign key v fields) :
    f = (key, v) ∨ f ∈ fields := by
  induction fields with
  | nil => exact .inl (List.mem_singleton.1 h)
  | cons g fields ih =>
      obtain ⟨k, x⟩ := g
      unfold assign at h
      by_cases hk : k = key
      · rw [if_pos hk] at h
        rcases List.mem_cons.1 h with h | h
        · exact .inl (hk ▸ h)
        · exact .inr (List.mem_cons_of_mem _ h)
      · rw [if_neg hk] at h
        by_cases hlt : key < k
        · rw [if_pos hlt] at h
          exact List.mem_cons.1 h
        · rw [if_neg hlt] at h
          rcases List.mem_cons.1 h with h | h
          · exact .inr (h ▸ List.mem_cons_self ..)
          · exact (ih h).imp_right (List.mem_cons_of_mem _)

/-- An assignment keeps the order of the keys. -/
theorem Sorted.assign {key : String} {v : Json}
    {fields : List (String × Json)} (h : Sorted fields) :
    Sorted (Json.assign key v fields) := by
  induction fields with
  | nil => exact List.pairwise_singleton _ _
  | cons g fields ih =>
      obtain ⟨k, x⟩ := g
      obtain ⟨hhead, htail⟩ := List.pairwise_cons.1 h
      unfold Json.assign
      by_cases hk : k = key
      · rw [if_pos hk]
        exact List.pairwise_cons.2 ⟨hhead, htail⟩
      · rw [if_neg hk]
        by_cases hlt : key < k
        · rw [if_pos hlt]
          apply List.pairwise_cons.2 ⟨_, h⟩
          intro f hf
          rcases List.mem_cons.1 hf with rfl | hf
          · exact hlt
          · exact String.lt_trans hlt (hhead f hf)
        · rw [if_neg hlt]
          apply List.pairwise_cons.2 ⟨_, ih htail⟩
          intro f hf
          rcases mem_assign hf with rfl | hf
          · exact Decidable.byContradiction fun hge => hk
              (String.le_antisymm (String.not_lt.1 hlt) (String.not_lt.1 hge))
          · exact hhead f hf

/-- Items are no deeper than their deepest. -/
theorem depthItems_le {n : Nat} {items : List Json} :
    depthItems items ≤ n ↔ ∀ v ∈ items, depth v ≤ n := by
  induction items with
  | nil => simp [depthItems]
  | cons v items ih =>
      rw [depthItems, Nat.max_le, ih, List.forall_mem_cons]

/-- So are members. -/
theorem depthMembers_le {n : Nat} {fields : List (String × Json)} :
    depthMembers fields ≤ n ↔ ∀ f ∈ fields, depth f.2 ≤ n := by
  induction fields with
  | nil => simp [depthMembers]
  | cons f fields ih =>
      obtain ⟨k, v⟩ := f
      rw [depthMembers, Nat.max_le, ih, List.forall_mem_cons]

-- =============================================================== reading

section Reading

variable {extract : Chars → Option Float}
  {value : Chars → Except Failure (Json × Chars)} {Q : Json → Prop}
  {fuel n : Nat}

/-- What a reader of values returns is as `Q` says. -/
def Yields (value : Chars → Except Failure (Json × Chars))
    (Q : Json → Prop) : Prop :=
  ∀ text v rest, value text = .ok (v, rest) → Q v

/-- A token that was decoded has a value. -/
theorem decoded_ok {α : Type} {x : Option α} {text : Chars} {r : α × Chars}
    (h : decoded x text = .ok r) : x = some r.1 := by
  cases x with
  | none => cases h
  | some a =>
      injection h with h
      rw [← h]

/-- A reader that goes on after another one: what both returned. -/
theorem bind_ok {α β : Type} {x : Except Failure α}
    {f : α → Except Failure β} {b : β} (h : x >>= f = .ok b) :
    ∃ a, x = .ok a ∧ f a = .ok b := by
  cases x with
  | error e => cases h
  | ok a => exact ⟨a, rfl, h⟩

/-- Items that are read are what values are. -/
theorem readItems_yields (hvalue : Yields value Q) {items acc : List Json}
    {text rest : Chars} (hacc : ∀ v ∈ acc, Q v)
    (h : readItems value fuel n acc text = .ok (items, rest)) :
    ∀ v ∈ items, Q v := by
  induction n generalizing acc text with
  | zero => cases h
  | succ n ih =>
      obtain ⟨⟨v, after⟩, hv, h⟩ := bind_ok h
      have hnext : ∀ u ∈ acc ++ [v], Q u := by
        intro u hu
        rcases List.mem_append.1 hu with hu | hu
        · exact hacc u hu
        · rw [List.mem_singleton.1 hu]
          exact hvalue text v after hv
      simp only at h
      split at h
      · exact ih hnext h
      · injection h with h
        injection h with h
        subst h
        exact hnext
      · cases h

/-- So are those of an array. -/
theorem readArray_yields (hvalue : Yields value Q) {items : List Json}
    {text rest : Chars} (h : readArray value fuel text = .ok (items, rest)) :
    ∀ v ∈ items, Q v := by
  have hnone : ∀ v ∈ ([] : List Json), Q v :=
    fun v hv => absurd hv List.not_mem_nil
  unfold readArray at h
  split at h
  · injection h with h
    injection h with h
    subst h
    exact hnone
  · exact readItems_yields hvalue hnone h

/-- So is the value of a member. -/
theorem readMember_yields (hvalue : Yields value Q) {v : Json} {token : Token}
    {text rest : Chars}
    (h : readMember value fuel text = .ok (v, token, rest)) : Q v := by
  unfold readMember at h
  simp only at h
  split at h
  · cases h
  · obtain ⟨⟨w, after⟩, hw, h⟩ := bind_ok h
    simp only at h
    split at h
    · cases h
    · injection h with h
      injection h with h
      subst h
      exact hvalue _ w after hw

/-- So are the values of members, which come sorted. -/
theorem readMembers_yields (hvalue : Yields value Q)
    {fields acc : List (String × Json)} {name : String} {text rest : Chars}
    (hsorted : Sorted acc) (hacc : ∀ f ∈ acc, Q f.2)
    (h : readMembers value fuel n acc name text = .ok (fields, rest)) :
    Sorted fields ∧ ∀ f ∈ fields, Q f.2 := by
  induction n generalizing acc name text with
  | zero => cases h
  | succ n ih =>
      unfold readMembers at h
      simp only at h
      split at h
      · obtain ⟨⟨k, after⟩, _, h⟩ := bind_ok h
        obtain ⟨⟨v, comma, after⟩, hv, h⟩ := bind_ok h
        have hQ : Q v := readMember_yields hvalue hv
        have hnext : ∀ f ∈ assign k v acc, Q f.2 := by
          intro f hf
          rcases mem_assign hf with rfl | hf
          · exact hQ
          · exact hacc f hf
        simp only at h
        split at h
        · injection h with h
          injection h with h
          subst h
          exact ⟨hsorted.assign, hnext⟩
        · exact ih hsorted.assign hnext h
      · split at h
        · injection h with h
          injection h with h
          subst h
          exact ⟨hsorted, hacc⟩
        · cases h
      · cases h

/-- What can be read inside `limit` less one others. -/
def Accepted (extract : Chars → Option Float) (limit : Nat) (v : Json) :
    Prop :=
  Made (Extracted extract) v ∧ depth v ≤ limit

/-- A value that is read is accepted, at every depth. -/
theorem readValue_yields (limit : Nat) :
    Yields (readValue extract fuel limit) (Accepted extract limit) := by
  induction limit with
  | zero =>
      intro text v rest h
      cases h
  | succ limit ih =>
      intro text v rest h
      have hscalar {u : Json} (hu : Made (Extracted extract) u)
          (hdepth : depth u = 1) : Accepted extract (limit + 1) u :=
        ⟨hu, by omega⟩
      unfold readValue at h
      simp only at h
      unfold valueFrom at h
      split at h
      · obtain ⟨⟨fields, after⟩, hfields, h⟩ := bind_ok h
        injection h with h
        injection h with h
        subst h
        obtain ⟨hsorted, hall⟩ := readMembers_yields ih List.Pairwise.nil
          (fun f hf => absurd hf List.not_mem_nil) hfields
        exact ⟨.obj hsorted fun f hf => (hall f hf).1,
          Nat.succ_le_succ (depthMembers_le.2 fun f hf => (hall f hf).2)⟩
      · obtain ⟨⟨items, after⟩, hitems, h⟩ := bind_ok h
        injection h with h
        injection h with h
        subst h
        have hall := readArray_yields ih hitems
        exact ⟨.arr fun v hv => (hall v hv).1,
          Nat.succ_le_succ (depthItems_le.2 fun v hv => (hall v hv).2)⟩
      · obtain ⟨hmade, hdepth⟩ := decodeNumber_made (decoded_ok h)
        exact hscalar hmade hdepth
      · obtain ⟨s, _, rfl⟩ := Option.map_eq_some_iff.1 (decoded_ok h)
        exact hscalar (.str s) rfl
      · injection h with h
        injection h with h
        exact h ▸ hscalar (.bool true) rfl
      · injection h with h
        injection h with h
        exact h ▸ hscalar (.bool false) rfl
      · injection h with h
        injection h with h
        exact h ▸ hscalar .null rfl
      · cases h

/-- What the reader accepts is a value as the source can have it, not
nested too deeply, with doubles that were read. -/
theorem parse_sound {text : Chars} {v : Json}
    (h : parse extract text = .ok v) : Accepted extract stackLimit v := by
  unfold parse at h
  cases hread : readValue extract (text.length + 1) stackLimit text with
  | error e =>
      rw [hread] at h
      cases h
  | ok r =>
      rw [hread] at h
      injection h with h
      subst h
      exact readValue_yields stackLimit text r.1 r.2 hread

end Reading

-- ============================================================== relaying

/-- A double that was read is read the same when it is printed: 17 digits
are enough for it. -/
def Faithful (extract : Chars → Option Float) : Prop :=
  ∀ x, Extracted extract x → extract (valueToString x).toList = some x

/-- What arrives of `v` is `w`, and of `w` itself. -/
structure Settles (extract : Chars → Option Float) (v w : Json) : Prop where
  arrives : received extract v = some w
  made : Made (Extracted extract) w
  deep : depth w = depth v
  stays : received extract w = some w

variable {extract : Chars → Option Float}

/-- A double settles: as an integer, or as the double its text means. -/
theorem settles_real (hprint : Faithful extract) {x : Float}
    (hx : Extracted extract x) : ∃ w, Settles extract (.real x) w := by
  have hreceived : received extract (.real x) = receivedReal extract x := rfl
  by_cases hnull : valueToString x = "null"
  · refine ⟨.null, ?_, .null, rfl, rfl⟩
    rw [hreceived, receivedReal, if_pos hnull]
  · rw [receivedReal, if_neg hnull, decodeNumber] at hreceived
    cases hn : decodeInteger (valueToString x).toList with
    | some n =>
        rw [hn] at hreceived
        exact ⟨.int n, hreceived, .int (decodeInteger_fits hn), rfl, rfl⟩
    | none =>
        rw [hn] at hreceived
        change _ = (extract _).map _ at hreceived
        rw [hprint x hx] at hreceived
        exact ⟨.real x, hreceived, .real hx, rfl, hreceived⟩

/-- Items settle if each does. -/
theorem settles_items {items : List Json}
    (h : ∀ v ∈ items, ∃ w, Settles extract v w) :
    ∃ ws, receivedItems extract items = some ws
      ∧ (∀ w ∈ ws, Made (Extracted extract) w)
      ∧ depthItems ws = depthItems items
      ∧ receivedItems extract ws = some ws := by
  induction items with
  | nil => exact ⟨[], rfl, fun w hw => absurd hw List.not_mem_nil, rfl, rfl⟩
  | cons v items ih =>
      obtain ⟨w, hw⟩ := h v (List.mem_cons_self ..)
      obtain ⟨ws, harrives, hmade, hdeep, hstays⟩ :=
        ih fun u hu => h u (List.mem_cons_of_mem _ hu)
      refine ⟨w :: ws, ?_, ?_, ?_, ?_⟩
      · rw [receivedItems, hw.arrives, harrives]
        rfl
      · exact List.forall_mem_cons.2 ⟨hw.made, hmade⟩
      · rw [depthItems, depthItems, hw.deep, hdeep]
      · rw [receivedItems, hw.stays, hstays]
        rfl

/-- So do members, under their names. -/
theorem settles_members {fields : List (String × Json)}
    (h : ∀ f ∈ fields, ∃ w, Settles extract f.2 w) :
    ∃ ws, receivedMembers extract fields = some ws
      ∧ (∀ w ∈ ws, Made (Extracted extract) w.2)
      ∧ depthMembers ws = depthMembers fields
      ∧ ws.map Prod.fst = fields.map Prod.fst
      ∧ receivedMembers extract ws = some ws := by
  induction fields with
  | nil =>
      exact ⟨[], rfl, fun w hw => absurd hw List.not_mem_nil, rfl, rfl, rfl⟩
  | cons f fields ih =>
      obtain ⟨k, v⟩ := f
      obtain ⟨w, hw⟩ : ∃ w, Settles extract v w := h (k, v)
        (List.mem_cons_self ..)
      obtain ⟨ws, harrives, hmade, hdeep, hkeys, hstays⟩ :=
        ih fun u hu => h u (List.mem_cons_of_mem _ hu)
      refine ⟨(k, w) :: ws, ?_, ?_, ?_, ?_, ?_⟩
      · rw [receivedMembers, hw.arrives, harrives]
        rfl
      · exact List.forall_mem_cons.2 ⟨hw.made, hmade⟩
      · rw [depthMembers, depthMembers, hw.deep, hdeep]
      · rw [List.map_cons, List.map_cons, hkeys]
      · rw [receivedMembers, hw.stays, hstays]
        rfl

/-- Sorted is said of the names alone. -/
theorem sorted_iff {fields : List (String × Json)} :
    Sorted fields ↔ (fields.map Prod.fst).Pairwise (· < ·) :=
  List.pairwise_map.symm

/-- What was read arrives, with the same shape, and then stays as it
is. -/
theorem Made.settles (hprint : Faithful extract) {v : Json}
    (h : Made (Extracted extract) v) : ∃ w, Settles extract v w := by
  induction h with
  | null => exact ⟨.null, rfl, .null, rfl, rfl⟩
  | bool b => exact ⟨.bool b, rfl, .bool b, rfl, rfl⟩
  | @int n hn => exact ⟨.int n, rfl, .int hn, rfl, rfl⟩
  | real hx => exact settles_real hprint hx
  | str s => exact ⟨.str s, rfl, .str s, rfl, rfl⟩
  | arr _ ih =>
      obtain ⟨ws, harrives, hmade, hdeep, hstays⟩ := settles_items ih
      refine ⟨.arr ws, ?_, .arr hmade, ?_, ?_⟩
      · rw [received, harrives]
        rfl
      · rw [depth, depth, hdeep]
      · rw [received, hstays]
        rfl
  | obj hsorted _ ih =>
      obtain ⟨ws, harrives, hmade, hdeep, hkeys, hstays⟩ := settles_members ih
      have hkept : Sorted ws := sorted_iff.2 (hkeys ▸ sorted_iff.1 hsorted)
      refine ⟨.obj ws, ?_, .obj hkept hmade, ?_, ?_⟩
      · rw [received, harrives]
        rfl
      · rw [depth, depth, hdeep]
      · rw [received, hstays]
        rfl

/-- What the reader accepts can be written and read again, which leaves
all but the doubles as it is, and after that it arrives as it is. -/
theorem parse_relayed (hprint : Faithful extract) {text : Chars} {v : Json}
    (h : parse extract text = .ok v) :
    Storable v ∧ depth v ≤ stackLimit
      ∧ ∃ w, received extract v = some w ∧ parse extract (write v) = .ok w
        ∧ parse extract (write w) = .ok w := by
  obtain ⟨hmade, hdepth⟩ := parse_sound h
  obtain ⟨w, hw⟩ := hmade.settles hprint
  refine ⟨hmade.storable, hdepth, w, hw.arrives, ?_, ?_⟩
  · exact (parse_write_iff extract hmade.storable).2 ⟨hdepth, hw.arrives⟩
  · exact (parse_write_iff extract hw.made.storable).2
      ⟨hw.deep ▸ hdepth, hw.stays⟩

/-- Reads 1.5, and what it is printed as. -/
def extractOne (text : Chars) : Option Float :=
  if text = "1.5".toList ∨ text = (valueToString 1.5).toList then some 1.5
  else none

/-- A list with the double 1.5. -/
theorem parse_relayed_one : Storable (.arr [.real 1.5])
    ∧ depth (.arr [.real 1.5]) ≤ stackLimit
    ∧ ∃ w, received extractOne (.arr [.real 1.5]) = some w
      ∧ parse extractOne (write (.arr [.real 1.5])) = .ok w
      ∧ parse extractOne (write w) = .ok w := by
  have hprint : Faithful extractOne := by
    rintro x ⟨text, h⟩
    unfold extractOne at h
    by_cases htext : text = "1.5".toList ∨ text = (valueToString 1.5).toList
    · rw [if_pos htext] at h
      injection h with h
      subst h
      exact if_pos (.inr rfl)
    · rw [if_neg htext] at h
      cases h
  have hread : parse extractOne "[1.5]".toList = .ok (.arr [.real 1.5]) := rfl
  exact parse_relayed hprint hread

-- ============================================================== messages

/-- The text that was written reaches the handler as it is read. -/
theorem handled_frame {v : Json} (hv : Storable v) :
    Mqtt.handled extract (Mqtt.frame v) = readable extract stackLimit v := by
  have hne : Mqtt.frame v ≠ [] := by simp [Mqtt.frame, write]
  rw [← parse_write extract hv]
  unfold Mqtt.handled Mqtt.onMessage
  rw [if_neg hne]
  show _ = (parse extract (Mqtt.frame v)).toOption
  cases parse extract (Mqtt.frame v) with
  | ok msg => rfl
  | error e => cases e <;> rfl

/-- A message can be stored if its body can. -/
theorem storable_message {fields : List (String × Json)} {v : Json}
    (hsorted : Sorted (("body", v) :: fields)) (hv : Storable v)
    (hfields : ∀ f ∈ fields, ∃ s, f.2 = .str s) :
    Storable (.obj (("body", v) :: fields)) := by
  apply Made.obj hsorted
  intro f hf
  rcases List.mem_cons.1 hf with rfl | hf
  · exact hv
  · obtain ⟨s, hs⟩ := hfields f hf
    rw [hs]
    exact .str s

/-- A message is nested one level deeper than its body. -/
theorem readable_message {fields : List (String × Json)} {v : Json}
    (hfields : ∀ f ∈ fields, ∃ s, f.2 = .str s) (limit : Nat) :
    readable extract (limit + 2) (.obj (("body", v) :: fields))
      = (readable extract (limit + 1) v).map
          fun w => .obj (("body", w) :: fields) := by
  have hrest : receivedMembers extract fields = some fields
      ∧ depthMembers fields ≤ limit + 1 := by
    induction fields with
    | nil => exact ⟨rfl, Nat.zero_le _⟩
    | cons f fields ih =>
        obtain ⟨k, u⟩ := f
        obtain ⟨s, rfl⟩ : ∃ s, u = .str s := hfields (k, u)
          (List.mem_cons_self ..)
        obtain ⟨hreceived, hdepth⟩ := ih fun f hf =>
          hfields f (List.mem_cons_of_mem _ hf)
        constructor
        · rw [receivedMembers, hreceived]
          rfl
        · rw [depthMembers, Nat.max_le]
          exact ⟨Nat.le_add_left 1 limit, hdepth⟩
  have hdeep : depth (.obj (("body", v) :: fields)) ≤ limit + 2
      ↔ depth v ≤ limit + 1 := by
    rw [depth, depthMembers, Nat.succ_le_succ_iff, Nat.max_le]
    exact and_iff_left hrest.2
  unfold readable
  by_cases hv : depth v ≤ limit + 1
  · rw [if_pos hv, if_pos (hdeep.2 hv), received, receivedMembers, hrest.1]
    cases received extract v <;> rfl
  · rw [if_neg hv, if_neg (mt hdeep.1 hv)]
    rfl

/-- A request arrives with its body, one level less deep. -/
theorem arrived_request {m : RpcRequest} (hbody : Storable m.body) :
    m.arrived extract
      = (readable extract (stackLimit - 1) m.body).map
          fun w => { m with body := w } := by
  have hstrings : ∀ f ∈ [("corr_id", Json.str m.props.correlationId),
      ("reply_to", Json.str m.props.replyTo)], ∃ s, f.2 = Json.str s := by
    simp
  have hsorted : Sorted [("body", m.body),
      ("corr_id", .str m.props.correlationId),
      ("reply_to", .str m.props.replyTo)] :=
    sorted_iff.2 (show ["body", "corr_id", "reply_to"].Pairwise (· < ·) by
      decide)
  have hjson : m.toJson = .obj [("body", m.body),
      ("corr_id", .str m.props.correlationId),
      ("reply_to", .str m.props.replyTo)] := by
    simp only [RpcRequest.toJson, object, List.foldl_cons, List.foldl_nil,
      assign, String.reduceEq, String.reduceLT, if_true, if_false]
  unfold RpcRequest.arrived
  rw [hjson, handled_frame (storable_message hsorted hbody hstrings)]
  show Option.bind (readable extract (998 + 2) (.obj _)) _ = _
  rw [readable_message hstrings]
  show _ = (readable extract (998 + 1) m.body).map _
  cases readable extract (998 + 1) m.body <;> rfl

/-- So does a reply. -/
theorem arrived_reply {m : RpcReply} (hbody : Storable m.body) :
    m.arrived extract
      = (readable extract (stackLimit - 1) m.body).map
          fun w => { m with body := w } := by
  have hstrings : ∀ f ∈ [("corr_id", Json.str m.corrId)],
      ∃ s, f.2 = Json.str s := by simp
  have hsorted : Sorted [("body", m.body), ("corr_id", .str m.corrId)] :=
    sorted_iff.2 (show ["body", "corr_id"].Pairwise (· < ·) by decide)
  have hjson : m.toJson
      = .obj [("body", m.body), ("corr_id", .str m.corrId)] := by
    simp only [RpcReply.toJson, object, List.foldl_cons, List.foldl_nil,
      assign, String.reduceEq, String.reduceLT, if_true, if_false]
  unfold RpcReply.arrived
  rw [hjson, handled_frame (storable_message hsorted hbody hstrings)]
  show Option.bind (readable extract (998 + 2) (.obj _)) _ = _
  rw [readable_message hstrings]
  show _ = (readable extract (998 + 1) m.body).map _
  cases readable extract (998 + 1) m.body <;> rfl

/-- What is readable is not too deep, and arrives. -/
theorem readable_eq_some {limit : Nat} {v w : Json} :
    readable extract limit v = some w
      ↔ depth v ≤ limit ∧ received extract v = some w := by
  unfold readable
  by_cases h : depth v ≤ limit
  · simp [h]
  · simp [h]

/-- A double arrives as something that can be stored. -/
theorem storable_real {x : Float} {w : Json}
    (h : receivedReal extract x = some w) : Storable w := by
  unfold receivedReal at h
  by_cases hnull : valueToString x = "null"
  · rw [if_pos hnull] at h
    injection h with h
    exact h ▸ .null
  · rw [if_neg hnull] at h
    exact (decodeNumber_made h).1.storable

/-- So do items. -/
theorem forall_receivedItems {items ws : List Json}
    (hitems : ∀ v ∈ items, ∀ w, received extract v = some w → Storable w)
    (h : receivedItems extract items = some ws) : ∀ w ∈ ws, Storable w := by
  induction items generalizing ws with
  | nil =>
      injection h with h
      subst h
      exact fun w hw => absurd hw List.not_mem_nil
  | cons v items ih =>
      obtain ⟨w, hw, h⟩ := Option.bind_eq_some_iff.1 h
      obtain ⟨us, hus, rfl⟩ := Option.map_eq_some_iff.1 h
      exact List.forall_mem_cons.2 ⟨hitems v (List.mem_cons_self ..) w hw,
        ih (fun u hu => hitems u (List.mem_cons_of_mem _ hu)) hus⟩

/-- So do members, with their names. -/
theorem forall_receivedMembers {fields ws : List (String × Json)}
    (hfields : ∀ f ∈ fields, ∀ w, received extract f.2 = some w → Storable w)
    (h : receivedMembers extract fields = some ws) :
    (∀ f ∈ ws, Storable f.2) ∧ ws.map Prod.fst = fields.map Prod.fst := by
  induction fields generalizing ws with
  | nil =>
      injection h with h
      subst h
      exact ⟨fun w hw => absurd hw List.not_mem_nil, rfl⟩
  | cons f fields ih =>
      obtain ⟨k, v⟩ := f
      obtain ⟨w, hw, h⟩ := Option.bind_eq_some_iff.1 h
      obtain ⟨us, hus, rfl⟩ := Option.map_eq_some_iff.1 h
      obtain ⟨hall, hkeys⟩ :=
        ih (fun u hu => hfields u (List.mem_cons_of_mem _ hu)) hus
      have hfirst : Storable w := hfields (k, v) (List.mem_cons_self ..) w hw
      exact ⟨List.forall_mem_cons.2 ⟨hfirst, hall⟩,
        congrArg (k :: ·) hkeys⟩

/-- What arrives of a value is one again. -/
theorem storable_received {v w : Json} (hv : Storable v)
    (h : received extract v = some w) : Storable w := by
  induction hv generalizing w with
  | null => exact Option.some.inj h ▸ .null
  | bool b => exact Option.some.inj h ▸ .bool b
  | int hn => exact Option.some.inj h ▸ .int hn
  | real => exact storable_real h
  | str s => exact Option.some.inj h ▸ .str s
  | arr _ ih =>
      obtain ⟨ws, hws, rfl⟩ := Option.map_eq_some_iff.1 h
      exact .arr (forall_receivedItems (fun v hv w hw => ih v hv hw) hws)
  | obj hsorted _ ih =>
      obtain ⟨ws, hws, rfl⟩ := Option.map_eq_some_iff.1 h
      obtain ⟨hall, hkeys⟩ :=
        forall_receivedMembers (fun f hf w hw => ih f hf hw) hws
      exact .obj (sorted_iff.2 (hkeys ▸ sorted_iff.1 hsorted)) hall

/-- What follows a guard is reached if the guard holds. -/
theorem guard_bind_eq_some {α : Type} {p : Prop} [Decidable p]
    {x : Unit → Option α} {a : α} :
    (guard p >>= x) = some a ↔ p ∧ x () = some a := by
  unfold guard
  by_cases hp : p
  · rw [if_pos hp]
    exact ⟨fun h => ⟨hp, h⟩, fun h => h.2⟩
  · rw [if_neg hp]
    exact iff_of_false (fun h => by cases h) fun h => hp h.1

/-- The answer of a server: only in bypass mode does it go where the
client listens. -/
theorem answers_iff {sv : RpcServer} {answer : Json → Json} {m : RpcRequest}
    {r : RpcReply} :
    (sv.answers answer m = some r ∧ r.topic = m.props.replyTo)
      ↔ sv.bypass = true
        ∧ r = ⟨m.props.replyTo, m.props.correlationId, answer m.body⟩ := by
  unfold RpcServer.answers
  cases hmode : sv.bypass with
  | true =>
      simp only [if_true, RpcServer.sendResponse, hmode, Option.some.injEq]
      constructor
      · intro h
        exact ⟨trivial, h.1.symm⟩
      · intro h
        rw [h.2]
        exact ⟨rfl, rfl⟩
  | false =>
      refine iff_of_false ?_ fun h => by cases h.1
      intro h
      obtain ⟨hr, htopic⟩ := h
      -- it is published on "rpc/" and the topic
      have hprefixed : r.topic = "rpc/" ++ m.props.replyTo := by
        unfold RpcServer.onMsg at hr
        rw [hmode] at hr
        cases hb : sv.handled m.body with
        | error e =>
            rw [hb] at hr
            cases hr
        | ok body =>
            rw [hb] at hr
            injection hr with hr
            rw [← hr]
      have hlen := congrArg String.length (hprefixed.symm.trans htopic)
      rw [String.length_append] at hlen
      have hfour : "rpc/".length = 4 := by decide
      omega

variable (extract) in
/-- What gets through: a request to the topic of a server in bypass mode,
and an answer, both nested less deeply than the reader allows and with
doubles it can read. -/
def Through (sv : RpcServer) (subscribed : String) (answer : Json → Json)
    (m : RpcRequest) (r : RpcReply) : Prop :=
  m.topic = subscribed ∧ sv.bypass = true ∧ depth m.body < stackLimit
    ∧ ∃ p, received extract m.body = some p
      ∧ depth (answer p) < stackLimit
      ∧ ∃ w, received extract (answer p) = some w
      ∧ r = ⟨m.props.replyTo, m.props.correlationId, w⟩

/-- The answer that comes back, for every server and topic. -/
theorem exchanged_eq_some {sv : RpcServer} {subscribed : String}
    {answer : Json → Json}
    (hanswer : ∀ v, Storable v → Storable (answer v)) {m : RpcRequest}
    (hbody : Storable m.body) (r : RpcReply) :
    exchanged extract sv subscribed answer m = some r
      ↔ Through extract sv subscribed answer m r := by
  have hlimit (n : Nat) : n < stackLimit ↔ n ≤ stackLimit - 1 :=
    Nat.lt_iff_le_pred (by decide)
  have hreply (p : Json) (hp : Storable p) :
      (RpcReply.arrived extract
        ⟨m.props.replyTo, m.props.correlationId, answer p⟩) = some r
        ↔ depth (answer p) < stackLimit
          ∧ ∃ w, received extract (answer p) = some w
          ∧ r = ⟨m.props.replyTo, m.props.correlationId, w⟩ := by
    rw [arrived_reply (hanswer p hp), Option.map_eq_some_iff]
    simp only [readable_eq_some, hlimit, and_assoc, exists_and_left,
      eq_comm (b := r)]
  -- the two topics, and the two messages
  have hsend : exchanged extract sv subscribed answer m = some r
      ↔ m.topic = subscribed ∧ ∃ p,
        readable extract (stackLimit - 1) m.body = some p
        ∧ sv.bypass = true ∧ RpcReply.arrived extract
          ⟨m.props.replyTo, m.props.correlationId, answer p⟩ = some r := by
    unfold exchanged
    rw [guard_bind_eq_some, arrived_request hbody]
    refine and_congr_right fun _ => ?_
    constructor
    · intro h
      obtain ⟨_, hrequest, h⟩ := Option.bind_eq_some_iff.1 h
      obtain ⟨p, hp, rfl⟩ := Option.map_eq_some_iff.1 hrequest
      obtain ⟨reply, hanswers, h⟩ := Option.bind_eq_some_iff.1 h
      obtain ⟨htopic, harrived⟩ := guard_bind_eq_some.1 h
      obtain ⟨hmode, rfl⟩ := answers_iff.1 ⟨hanswers, htopic⟩
      exact ⟨p, hp, hmode, harrived⟩
    · intro h
      obtain ⟨p, hp, hmode, harrived⟩ := h
      obtain ⟨hanswers, htopic⟩ := answers_iff.2 ⟨hmode, rfl⟩
      refine Option.bind_eq_some_iff.2
        ⟨_, Option.map_eq_some_iff.2 ⟨p, hp, rfl⟩, ?_⟩
      refine Option.bind_eq_some_iff.2 ⟨_, hanswers, ?_⟩
      exact guard_bind_eq_some.2 ⟨htopic, harrived⟩
  rw [hsend]
  unfold Through
  refine and_congr_right fun _ => ?_
  rw [hlimit]
  constructor
  · intro h
    obtain ⟨p, hp, hmode, harrived⟩ := h
    obtain ⟨hdepth, hp⟩ := readable_eq_some.1 hp
    exact ⟨hmode, hdepth, p, hp,
      (hreply p (storable_received hbody hp)).1 harrived⟩
  · intro h
    obtain ⟨hmode, hdepth, p, hp, h⟩ := h
    exact ⟨p, readable_eq_some.2 ⟨hdepth, hp⟩, hmode,
      (hreply p (storable_received hbody hp)).2 h⟩

/-- The client once a reply for `c` has been handled. -/
def answeredState (st : RpcState) (c : String) (v : Json) : RpcState :=
  { st with
    promises := st.promises.erase c
    removed := c :: st.removed
    values := Function.update st.values c (some v)
    handling := none }

/-- The listening thread hands a reply to the call that waits for it. -/
theorem run_onMsg {queue : String} {ru : RpcRules} {st : RpcState}
    {r : RpcReply} (hin : r.corrId ∈ st.promises)
    (hnone : st.values r.corrId = none)
    (l₁ l₂ : List (Thread RpcState RpcThread Wait fun _ => Bool)) :
    (rpcSystem queue ru).Run ⟨st, l₁ ++ (.listen, RpcClient.onMsg r) :: l₂⟩
      ⟨answeredState st r.corrId r.body, l₁ ++ l₂⟩ := by
  have hfind : (rpcSystem queue ru).Step
      ⟨st, l₁ ++ (.listen, RpcClient.onMsg r) :: l₂⟩
      ⟨st, l₁ ++ (.listen, do
        if !decide (r.corrId ∈ st.promises) then RpcClient.ignore
        else
          RpcClient.setValue r.corrId r.body
          RpcClient.erase r.corrId
          RpcClient.ignore) :: l₂⟩ := .exec l₁ l₂ .act
  rw [decide_eq_true hin] at hfind
  have hset : (rpcSystem queue ru).Step
      ⟨st, l₁ ++ (.listen, do
        RpcClient.setValue r.corrId r.body
        RpcClient.erase r.corrId
        RpcClient.ignore) :: l₂⟩
      ⟨if r.corrId ∈ st.promises ∧ st.values r.corrId = none then
          { st with
            values := Function.update st.values r.corrId (some r.body) }
        else { st with fault := true },
        l₁ ++ (.listen, do
          RpcClient.erase r.corrId
          RpcClient.ignore) :: l₂⟩ := .exec l₁ l₂ .act
  rw [if_pos ⟨hin, hnone⟩] at hset
  have herase : (rpcSystem queue ru).Step
      ⟨{ st with
          values := Function.update st.values r.corrId (some r.body) },
        l₁ ++ (.listen, do
          RpcClient.erase r.corrId
          RpcClient.ignore) :: l₂⟩
      ⟨if r.corrId ∈ st.promises then
          { st with
            values := Function.update st.values r.corrId (some r.body)
            promises := st.promises.erase r.corrId
            removed := r.corrId :: st.removed }
        else
          { st with
            values := Function.update st.values r.corrId (some r.body)
            fault := true },
        l₁ ++ (.listen, RpcClient.ignore) :: l₂⟩ := .exec l₁ l₂ .act
  rw [if_pos hin] at herase
  exact .head hfind (.head hset (.head herase (.head (.exec l₁ l₂ .act)
    (.single (.retire l₁ l₂ (.pure ()))))))

variable (extract) in
/-- A request and its answer get through exactly if the server listens
where the request is published, in bypass mode, and both bodies can be
read. The answer comes back on the topic and with the correlation id of
the request, and the client hands it to the call that waits. -/
theorem exchanged_iff (sv : RpcServer) (subscribed : String)
    (answer : Json → Json)
    (hanswer : ∀ v, Storable v → Storable (answer v)) {m : RpcRequest}
    (hbody : Storable m.body) (r : RpcReply) :
    (exchanged extract sv subscribed answer m = some r
      ↔ Through extract sv subscribed answer m r)
    ∧ (exchanged extract sv subscribed answer m = some r →
      ∀ (ru : RpcRules) (st : RpcState)
        (l₁ l₂ : List (Thread RpcState RpcThread Wait fun _ => Bool)),
        m.props.correlationId ∈ st.promises →
        st.values m.props.correlationId = none →
        (rpcSystem m.props.replyTo ru).Run
          ⟨st, l₁ ++ (.listen, RpcClient.onMsg r) :: l₂⟩
          ⟨answeredState st m.props.correlationId r.body, l₁ ++ l₂⟩) := by
  refine ⟨exchanged_eq_some hanswer hbody r, ?_⟩
  intro h ru st l₁ l₂ hin hnone
  obtain ⟨-, -, -, p, -, -, w, -, rfl⟩ :=
    (exchanged_eq_some hanswer hbody r).1 h
  exact run_onMsg hin hnone l₁ l₂

/-- A request to say what it is said. -/
def pingRequest : RpcRequest :=
  ⟨"rpc/agent", ⟨"1", "rpc-res/2"⟩, .str "ping"⟩

/-- An echo in bypass mode is heard, and the call that waits gets it; a
server with registered handlers is not heard. -/
theorem exchanged_ping :
    exchanged (fun _ => none) ⟨true, fun _ => none⟩ "rpc/agent" (fun v => v)
        pingRequest = some ⟨"rpc-res/2", "1", .str "ping"⟩
      ∧ (rpcSystem "rpc-res/2" .free).Run
        ⟨{ promises := ["1"] }, [(.listen,
          RpcClient.onMsg ⟨"rpc-res/2", "1", .str "ping"⟩)]⟩
        ⟨answeredState { promises := ["1"] } "1" (.str "ping"), []⟩
      ∧ exchanged (fun _ => none) ⟨false, fun _ => some fun v => v⟩
        "rpc/agent" (fun v => v) pingRequest = none := by
  have hdepth : depth (.str "ping") < stackLimit := by decide
  obtain ⟨hiff, hrun⟩ := exchanged_iff (fun _ => none)
    ⟨true, fun _ => none⟩ "rpc/agent" (fun v => v)
    (fun _ hv => hv) (m := pingRequest) (.str "ping")
    ⟨"rpc-res/2", "1", .str "ping"⟩
  have hthrough := hiff.2
    ⟨rfl, rfl, hdepth, _, rfl, hdepth, _, rfl, rfl⟩
  refine ⟨hthrough, hrun hthrough .free { promises := ["1"] } [] []
    (List.mem_singleton_self _) rfl, ?_⟩
  rw [Option.eq_none_iff_forall_ne_some]
  intro r hr
  have hmode := ((exchanged_iff (fun _ => none)
    ⟨false, fun _ => some fun v => v⟩ "rpc/agent" (fun v => v)
    (fun _ hv => hv) (m := pingRequest) (.str "ping") r).1.1 hr).2.1
  cases hmode

end Json

end BigDataExpress

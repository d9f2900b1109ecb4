/-
The state of a bootstrap: object ids, documents as JSON, the updates of
a rawjob, and what a bootstrap has left of itself so far.

`Begun` says this of a state: nothing but `new` blocks, and no error. All
steps before the sjobs are stored keep it, up to the blocks they add.
-/
import BigDataExpress.Proofs.Serve
import BigDataExpress.Server.Bootstrap

namespace BigDataExpress

open Stateful

-- ========================================================== object ids

namespace ObjectId

theorem toLower_hexDigit {c : Char} (h : isHexDigit c = true) :
    c.toLower = c := by
  have hup : ¬ (c.val ≥ 'A'.val ∧ c.val ≤ 'Z'.val) := by
    unfold isHexDigit at h
    simp only [Bool.or_eq_true, Bool.and_eq_true, decide_eq_true_eq,
      Char.le_def, UInt32.le_iff_toNat_le] at h
    simp only [ge_iff_le, UInt32.le_iff_toNat_le]
    intro hu
    simp at h hu
    omega
  unfold Char.toLower
  rw [dif_neg hup]

/-- An id is read back as it was written. -/
theorem parse_text (o : ObjectId) : parse o.text = .ok o := by
  have hlist : o.text.toList.map Char.toLower = o.digits := by
    rw [text, String.toList_ofList]
    refine (List.map_congr_left ?_).trans (List.map_id _)
    intro c hc
    exact toLower_hexDigit (List.all_eq_true.1 o.all_hex c hc)
  unfold parse
  simp only [hlist]
  rw [dif_pos ⟨o.length_digits, o.all_hex⟩]

end ObjectId

-- ====================================================== reading members

namespace Json

theorem lookup_filter {key k : String} (h : key ≠ k)
    (fields : List (String × Json)) :
    lookup key (fields.filter fun kv => kv.1 ≠ k) = lookup key fields := by
  induction fields with
  | nil => rfl
  | cons f rest ih =>
      obtain ⟨j, x⟩ := f
      by_cases hj : j = k
      · rw [List.filter_cons_of_neg (by simp [hj]), ih, lookup,
          if_neg fun he => h (he.symm.trans hj)]
      · rw [List.filter_cons_of_pos (by simp [hj]), lookup, lookup, ih]

/-- What a path of keys is assigned to is an object, and its other
members stay. -/
theorem setIn_obj {fields : List (String × Json)} {key : String}
    {keys : List String} {x v : Json}
    (h : (Json.obj fields).setIn (key :: keys) x = .ok v) :
    ∃ y, ((lookup key fields).getD .null).setIn keys x = .ok y
      ∧ v = .obj (assign key y fields) := by
  unfold setIn at h
  rw [get_obj] at h
  obtain ⟨z, hz, h⟩ := bind_eq_ok.1 h
  injection hz with hz
  subst hz
  obtain ⟨y, hy, hv⟩ := bind_eq_ok.1 h
  injection hv with hv
  exact ⟨y, hy, hv.symm⟩

end Json

/-- A value is an object with this member. -/
def Json.Has (v : Json) (key : String) (x : Json) : Prop :=
  ∃ fields, v = .obj fields ∧ Json.lookup key fields = some x

namespace Json

variable {v w x y : Json} {key k : String}

theorem Has.get (h : v.Has key x) : v.get key = .ok x := by
  obtain ⟨fields, rfl, hx⟩ := h
  rw [get_obj, hx]
  rfl

theorem Has.set (h : v.Has key x) (hk : k ≠ key)
    (hw : v.set k y = .ok w) : w.Has key x := by
  obtain ⟨fields, rfl, hx⟩ := h
  injection hw with hw
  refine ⟨_, hw.symm, ?_⟩
  rw [lookup_assign, if_neg hk, hx]

theorem Has.setIn {keys : List String} (h : v.Has key x) (hk : k ≠ key)
    (hw : v.setIn (k :: keys) y = .ok w) : w.Has key x := by
  obtain ⟨fields, rfl, hx⟩ := h
  obtain ⟨z, _, rfl⟩ := setIn_obj hw
  refine ⟨_, rfl, ?_⟩
  rw [lookup_assign, if_neg hk, hx]

theorem Has.removeMember (h : v.Has key x) (hk : key ≠ k) :
    (v.removeMember k).Has key x := by
  obtain ⟨fields, rfl, hx⟩ := h
  exact ⟨_, rfl, (lookup_filter hk fields).trans hx⟩

/-- An object takes every assignment. -/
theorem Has.set_ok (h : v.Has key x) (k : String) (y : Json) :
    ∃ w, v.set k y = .ok w := by
  obtain ⟨fields, rfl, _⟩ := h
  exact ⟨_, rfl⟩

/-- An assigned member is there. -/
theorem has_of_set (hw : v.set key y = .ok w) : w.Has key y := by
  obtain ⟨fields, _, hw⟩ := bind_eq_ok.1 hw
  injection hw with hw
  refine ⟨_, hw.symm, ?_⟩
  rw [lookup_assign, if_pos rfl]

end Json

/-- A value is the JSON of a document with this id. -/
def Json.IsOf (v : Json) (o : ObjectId) : Prop := v.Has "_id" o.toJson

theorem oidOf_of_has {v : Json} {key s : String}
    (h : v.Has key (.obj [("$oid", .str s)])) : oidOf v key = .ok s := by
  unfold oidOf
  rw [h.get]
  rfl

theorem Json.IsOf.oidOf {v : Json} {o : ObjectId} (h : v.IsOf o) :
    oidOf v "_id" = .ok o.text :=
  oidOf_of_has h

theorem Document.toJson_isOf (d : Document) : d.toJson.IsOf d.id := by
  refine ⟨_, rfl, ?_⟩
  rw [Json.lookup_assign, if_pos rfl]

-- ======================================================= the operations

/-- The rawjob with an id, among the documents. -/
def Intake.rawjob (s : Intake) (o : ObjectId) : Option Document :=
  s.rawjobs.find? fun d => d.id = o

theorem getRawjobFromId_run {id : String} {o : ObjectId} {s : Intake}
    {doc : Document} (hid : ObjectId.parse id = .ok o)
    (hdoc : s.rawjob o = some doc) :
    Boot.getRawjobFromId id s = .ok doc.toJson s := by
  unfold Intake.rawjob at hdoc
  unfold Boot.getRawjobFromId Boot.read
  rw [hid]
  rw [Stateful.ofExcept, pure_bind, Stateful.get_bind_run, hdoc]
  rfl

/-- A state with a rawjob changed. -/
def Intake.setRawjob (s : Intake) (o : ObjectId) (key : String) (v : Json) :
    Intake :=
  { s with
    rawjobs := Collection.updateOne (fun d => d.id = o)
      (Document.set key v) s.rawjobs }

@[simp] theorem wp_updateRawjobField {id key : String} {v : Json}
    {o : ObjectId} (hid : ObjectId.parse id = .ok o)
    {Q : Unit → Intake → Prop} {E : Intake → Prop} {s : Intake} :
    wp (Boot.updateRawjobField id key v) Q E s
      ↔ Q () (s.setRawjob o key v) := by
  unfold Boot.updateRawjobField Boot.read
  rw [hid, wp_bind]
  rfl

@[simp] theorem wp_insertBlock {fields : List (String × Json)}
    {Q : ObjectId → Intake → Prop} {E : Intake → Prop} {s : Intake} :
    wp (Boot.insertBlock fields) Q E s
      ↔ Q (s.oids s.inserts.length)
          { s with
            blocks := s.blocks ++ [⟨s.oids s.inserts.length, fields⟩],
            inserts := s.inserts
              ++ [(.block, s.oids s.inserts.length)] } := Iff.rfl

theorem rawjob_setRawjob {s : Intake} {o : ObjectId} {doc : Document}
    (h : s.rawjob o = some doc) (key : String) (v : Json) :
    (s.setRawjob o key v).rawjob o = some (doc.set key v) := by
  unfold Intake.rawjob Intake.setRawjob at *
  dsimp only
  generalize s.rawjobs = l at h
  induction l with
  | nil => cases h
  | cons d l ih =>
      rw [Collection.updateOne_cons]
      by_cases hd : d.id = o
      · simp only [List.find?_cons, hd, decide_true] at h
        injection h with h
        subst h
        rw [if_pos (decide_eq_true hd)]
        simp only [List.find?_cons, Document.set, hd, decide_true]
      · simp only [List.find?_cons, hd, decide_false] at h
        rw [if_neg (by simpa using hd)]
        simp only [List.find?_cons, hd, decide_false]
        exact ih h

-- ================================================ how far it has gone

/-- The rawjob is in state error, with a message. -/
def InError (s : Intake) (o : ObjectId) : Prop :=
  ∃ doc msg, s.rawjob o = some doc
    ∧ Json.lookup "state" doc.fields = some (.int Boot.rawjobError)
    ∧ Json.lookup "error" doc.fields = some (.str msg)

/-- From `s` to `t`, only blocks were inserted, the rawjob has no error
and the other two collections are as they were. -/
structure Begun (o : ObjectId) (s : Intake) (new : List Document)
    (t : Intake) : Prop where
  sjobs : t.sjobs = s.sjobs
  blocks : t.blocks = s.blocks ++ new
  inserts : t.inserts = s.inserts ++ new.map fun b => (.block, b.id)
  rawjob : ∃ doc, t.rawjob o = some doc
    ∧ Json.lookup "error" doc.fields = none

namespace Begun

variable {o : ObjectId} {s t : Intake} {new : List Document}

theorem mail (h : Begun o s new t) (m : Mail) :
    Begun o s new { t with mail := m } :=
  ⟨h.sjobs, h.blocks, h.inserts, h.rawjob⟩

theorem setRawjob (h : Begun o s new t) {key : String} (hk : key ≠ "error")
    (v : Json) : Begun o s new (t.setRawjob o key v) := by
  obtain ⟨doc, hdoc, herr⟩ := h.rawjob
  refine ⟨h.sjobs, h.blocks, h.inserts, doc.set key v,
    rawjob_setRawjob hdoc key v, ?_⟩
  unfold Document.set
  rw [Json.lookup_assign, if_neg hk, herr]

/-- A block more. -/
theorem insertBlock (h : Begun o s new t)
    (fields : List (String × Json)) {Q : ObjectId → Intake → Prop}
    {E : Intake → Prop}
    (hQ : ∀ id t', Begun o s (new ++ [⟨id, fields⟩]) t' → t'.mail = t.mail →
      Q id t') :
    wp (Boot.insertBlock fields) Q E t := by
  refine hQ _ _ ⟨h.sjobs, ?_, ?_, h.rawjob⟩ rfl
  · rw [h.blocks, List.append_assoc]
  · rw [h.inserts, List.map_append, List.append_assoc]
    rfl

/-- A job that is refused is in error, and there is nothing else new. -/
theorem refuse (h : Begun o s new t) {id : String}
    (hid : ObjectId.parse id = .ok o) (error : String)
    {Q : Unit → Intake → Prop} {E : Intake → Prop}
    (hQ : ∀ t', InError t' o → t'.sjobs = s.sjobs →
      t'.blocks = s.blocks ++ new →
      t'.inserts = s.inserts ++ new.map (fun b => (.block, b.id)) →
      Q () t') :
    wp (BigDataExpress.refuse id error) Q E t := by
  unfold BigDataExpress.refuse Boot.updateRawjobState
  rw [wp_bind, wp_updateRawjobField hid, wp_updateRawjobField hid]
  obtain ⟨doc, hdoc, herr⟩ := h.rawjob
  refine hQ _ ⟨_, error, rawjob_setRawjob (rawjob_setRawjob hdoc _ _) _ _,
    ?_, ?_⟩ h.sjobs h.blocks h.inserts
  · unfold Document.set
    rw [Json.lookup_assign, if_neg (by decide), Json.lookup_assign,
      if_pos rfl]
  · unfold Document.set
    rw [Json.lookup_assign, if_pos rfl]

/-- It is not in error. -/
theorem not_inError (h : Begun o s new t) : ¬ InError t o := by
  obtain ⟨doc, hdoc, herr⟩ := h.rawjob
  intro hin
  obtain ⟨doc', msg, hdoc', _, hmsg⟩ := hin
  rw [hdoc] at hdoc'
  injection hdoc' with hdoc'
  subst hdoc'
  rw [herr] at hmsg
  cases hmsg

end Begun

end BigDataExpress

/-
Rules for the commands of the server: reading members of a JSON value,
and weakest preconditions of the steps of a command.
-/
import BigDataExpress.Server.Commands

namespace BigDataExpress

open Stateful

-- ========================================================== JSON members

namespace Json

/-- An assigned member has its value, and the others theirs. -/
theorem lookup_assign (key k : String) (v : Json)
    (fields : List (String × Json)) :
    lookup key (assign k v fields)
      = if k = key then some v else lookup key fields := by
  induction fields with
  | nil => rfl
  | cons f rest ih =>
      obtain ⟨j, x⟩ := f
      unfold assign
      by_cases hjk : j = k
      · subst hjk
        simp only [if_pos, lookup]
        by_cases hj : j = key
        · rw [if_pos hj, if_pos hj]
        · rw [if_neg hj, if_neg hj, if_neg hj]
      · rw [if_neg hjk]
        by_cases hlt : k < j
        · rw [if_pos hlt]
          rfl
        · rw [if_neg hlt]
          unfold lookup
          rw [ih]
          by_cases hj : j = key
          · rw [if_pos hj, if_neg (fun hk => hjk (hj.trans hk.symm)),
              if_pos hj]
          · rw [if_neg hj, if_neg hj]

/-- A member that is missing is null. -/
@[simp] theorem get_obj (fields : List (String × Json)) (key : String) :
    (Json.obj fields).get key = .ok ((lookup key fields).getD .null) := rfl

/-- An object has the members it has. -/
@[simp] theorem isMember_obj (fields : List (String × Json))
    (key : String) :
    (Json.obj fields).isMember key = .ok (lookup key fields).isSome := rfl

/-- Once one member could be read, every other can. -/
theorem get_of_get {v : Json} {key : String} {c : Json}
    (h : v.get key = .ok c) (k : String) : ∃ x, v.get k = .ok x := by
  cases v with
  | null => exact ⟨.null, rfl⟩
  | obj fields => exact ⟨_, rfl⟩
  | bool b => cases h
  | int n => cases h
  | real x => cases h
  | str s => cases h
  | arr l => cases h

/-- Null is 0. -/
theorem asInt_null {c : Json} (h : c.isNull = true) : c.asInt = .ok 0 := by
  cases c with
  | null => rfl
  | bool b => cases h
  | int n => cases h
  | real x => cases h
  | str s => cases h
  | arr l => cases h
  | obj l => cases h

end Json

-- ================================================================= steps

namespace Serve

variable {α β : Type} {Q : α → Session → Prop} {E : Session → Prop}
  {s : Session}

/-- A read that succeeds hands over its result. -/
theorem read_bind_ok {x : Except String α} {a : α} {f : α → Serve β}
    (hx : x = .ok a) : (read x >>= f) s = f a s := by
  rw [hx]
  rfl

/-- A read that fails ends the command. -/
theorem read_bind_error {x : Except String α} {e : String} {f : α → Serve β}
    (hx : x = .error e) : (read x >>= f) s = .error e s := by
  rw [hx]
  rfl

/-- A call is published, and answered with the outcome of its number. -/
theorem call_bind {queue : String} {request : Json} {f : Json → Serve β} :
    (call queue request >>= f) s = f (s.outcomes s.calls.length)
      { s with calls := s.calls ++ [(queue, request)] } := rfl

/-- A read that succeeds establishes what holds of its result. -/
theorem wp_read_ok {x : Except String α} {a : α} (hx : x = .ok a) :
    wp (read x) Q E s ↔ Q a s := by
  rw [hx]
  rfl

/-- A read, by cases. -/
theorem wp_read {x : Except String α} :
    wp (read x) Q E s ↔ (∀ a, x = .ok a → Q a s)
      ∧ ∀ e, x = .error e → E s := by
  cases x with
  | ok a =>
      constructor
      · intro h
        refine ⟨fun b hb => ?_, fun e he => (by cases he)⟩
        injection hb with hb
        exact hb ▸ h
      · exact fun h => h.1 a rfl
  | error e =>
      constructor
      · exact fun h => ⟨fun b hb => (by cases hb), fun _ _ => h⟩
      · exact fun h => h.2 e rfl

/-- A call, by its outcome. -/
@[simp] theorem wp_call {Q : Json → Session → Prop} {queue : String}
    {request : Json} :
    wp (call queue request) Q E s ↔ Q (s.outcomes s.calls.length)
      { s with calls := s.calls ++ [(queue, request)] } := Iff.rfl

/-- With a target the request is published. -/
theorem rpc_bind {queue : String} {request : Json} {f : Json → Serve β}
    (ht : RpcClient.topicOf queue ≠ "rpc/") :
    (rpc queue request >>= f) s = f (s.outcomes s.calls.length)
      { s with calls := s.calls ++ [(queue, request)] } := by
  unfold rpc
  rw [if_neg ht, call_bind]

/-- Without one it is refused, and nothing is published. -/
theorem rpc_bind_error {queue : String} {request : Json}
    {f : Json → Serve β} (ht : RpcClient.topicOf queue = "rpc/") :
    (rpc queue request >>= f) s
      = .error "RpcClient::call() empty target not allowed" s := by
  unfold rpc
  rw [if_pos ht]
  rfl

/-- A call goes out if its target has a topic, and throws if not. -/
theorem wp_rpc {Q : Json → Session → Prop} {queue : String}
    {request : Json} :
    wp (rpc queue request) Q E s
      ↔ (RpcClient.topicOf queue ≠ "rpc/" → Q (s.outcomes s.calls.length)
          { s with calls := s.calls ++ [(queue, request)] })
        ∧ (RpcClient.topicOf queue = "rpc/" → E s) := by
  unfold rpc
  by_cases ht : RpcClient.topicOf queue = "rpc/"
  · rw [if_pos ht]
    exact ⟨fun h => ⟨fun hne => absurd ht hne, fun _ => h⟩, fun h => h.2 ht⟩
  · rw [if_neg ht]
    exact ⟨fun h => ⟨fun _ => h, fun heq => absurd heq ht⟩, fun h => h.1 ht⟩

/-- A response is sent. -/
@[simp] theorem wp_sendResponse {Q : Unit → Session → Prop}
    {props : RpcProps} {res : Json} :
    wp (sendResponse props res) Q E s
      ↔ Q () { s with sent := s.sent ++ [(props, res)] } := Iff.rfl

end Serve

-- =============================================================== lookups

namespace SiteView

/-- A DTN is looked up by its name. -/
theorem look_getDtnNode {site : SiteView} {id : String}
    {d : PtrGraph.Node RNode} :
    site.look (RGraph.getDtnNode id) = .ok d
      ↔ RGraph.find site.graph (.dtn, id) = some d := by
  unfold look
  rw [RGraph.getDtnNode, get_bind_run]
  cases RGraph.find site.graph (.dtn, id) with
  | none => exact ⟨fun h => (by cases h), fun h => (by cases h)⟩
  | some n =>
      constructor
      · intro h
        injection h with h
        rw [h]
      · intro h
        injection h with h
        subst h
        rfl

end SiteView

end BigDataExpress

/-
The server as a state machine whose steps are whole handlers: one
iteration of `schedule()` over an sjob, one `mld_status` handler, one
`poll_rate()` pass.

A scheduling pass reads the active sjobs once and then works through the
list it has read (`pending`), while reports are handled in between. An
exception ends the pass. Reports can be anything: any task, any state,
at any time and any number of times. The launcher comes and goes.

Every call of a handler is answered by an oracle. The two calls whose
answer decides how a handler goes on are restricted by the event
(`Answers`), so that runs can be told apart by them; with `Answers.any`
nothing is restricted.
-/
import BigDataExpress.Server.MldStatus
import BigDataExpress.Server.PollRate

namespace BigDataExpress

open Interact

-- ============================================================== answers

/-- The verification was answered and has succeeded. -/
def VerifyAnswer.accepts (r : VerifyAnswer) : Bool :=
  r.http == 200 && r.code == some 0

/-- The verdicts possible on a block's checksums, and whether a launch
can be accepted and refused. -/
structure Answers where
  verified : Bool → Prop
  launched : Bool → Prop

/-- Every answer is possible. -/
def Answers.any : Answers := ⟨fun _ => True, fun _ => True⟩

/-- The environment of a handler that gets these answers. -/
def Answers.env (a : Answers) (h : HandlerId) : Env World Call Reply where
  eff := World.record h
  adm _ e r := match e, r with
    | .verifyChecksum .., (r : VerifyAnswer) => a.verified r.accepts
    | .launch .., (r : LaunchAnswer) => a.launched r.error.isNone
    | _, _ => True

-- =========================================================== the server

/-- The world, and the sjobs the scheduling pass has still to look at. -/
structure Server where
  world : World
  pending : List Sjob

inductive Event
  /-- a scheduling pass begins -/
  | pass
  /-- the pass looks at the next sjob -/
  | schedule (a : Answers)
  /-- a report is handled -/
  | status (task : Guid) (params : StatusParams) (a : Answers)
  /-- a polling pass -/
  | poll
  /-- the launcher registers or goes away -/
  | launcher (registered : Bool)

namespace Server

/-- The next iteration of the pass. -/
def iterate (conf : Conf) (a : Answers) (o : Oracle World Call Reply)
    (w : World) (x : Sjob) (xs : List Sjob) : Server :=
  match (scheduleSjob conf x).run (a.env .schedule) o w with
  | (.ok _, w') => ⟨w', xs⟩
  | (.error _, w') => ⟨w', []⟩

inductive Step (conf : Conf) : Event → Server → Server → Prop
  | pass {w : World} : Step conf .pass ⟨w, []⟩ ⟨w, w.activeBestEffortSjobs⟩
  | schedule {w : World} {x : Sjob} {xs : List Sjob} {a : Answers}
      {o : Oracle World Call Reply} : o.Admissible (a.env .schedule) →
      Step conf (.schedule a) ⟨w, x :: xs⟩ (iterate conf a o w x xs)
  | status {w : World} {l : List Sjob} {t : Guid} {params : StatusParams}
      {a : Answers} {n : Nat} {o : Oracle World Call Reply} :
      o.Admissible (a.env (.status n)) →
      Step conf (.status t params a) ⟨w, l⟩
        ⟨((mldStatus conf t params).run (a.env (.status n)) o w).2, l⟩
  | poll {w : World} {l : List Sjob} {o : Oracle World Call Reply} :
      Step conf .poll ⟨w, l⟩
        ⟨((pollRate conf).run (Answers.any.env .pollRate) o w).2, l⟩
  | launcher {w : World} {l : List Sjob} {b : Bool} :
      Step conf (.launcher b) ⟨w, l⟩ ⟨{ w with hasLauncher := b }, l⟩

/-- The runs whose every event is taken in a state that satisfies `C`. -/
abbrev Run (conf : Conf) (C : Event → Server → Prop) :
    Server → Server → Prop :=
  Relation.ReflTransGen fun s s' => ∃ e, C e s ∧ Step conf e s s'

end Server

end BigDataExpress

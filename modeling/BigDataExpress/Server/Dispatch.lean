/-
The server as a pool of handlers (`Scheduler::run`, `add_event`,
`dispatch`; the reports come in through `Main::on_msg`).

The handlers run on the threads of one io service, interleaved at their
single store operations and calls. `schedule()` and `poll_rate()` are
armed again when they have ended, so of each one pass runs at a time. A
status report is dispatched without a strand: any number of its handlers
run side by side.

The launcher agent publishes reports on the launches it was sent. MQTT
delivers them with QoS 1: a report is dispatched late, or more than
once.

What happens can be restricted by `Rules`: when a report is dispatched,
when a polling pass begins, when the launcher comes and goes, and what
the calls are answered. Under `Rules.free` nothing is restricted.
-/
import BigDataExpress.Lib.Phases
import BigDataExpress.Server.MldStatus
import BigDataExpress.Server.PollRate

namespace BigDataExpress

open Interact

/-- The handlers of the server at work. -/
abbrev ServerPool : Type := Pool World HandlerId Call Reply

/-- The handler is running. -/
def ServerPool.Running (P : ServerPool) (h : HandlerId) : Prop :=
  h ∈ P.threads.map Prod.fst

-- ============================================================ launches

/-- The task and the block of every launch in a log, in order. -/
def labelsOf (log : List LogEntry) : List (Guid × Oid) :=
  log.filterMap fun x => match x with
    | ⟨_, .launch b cmd, _⟩ => some (cmd.task, b)
    | _ => none

/-- The launches issued so far. -/
def World.labels (w : World) : List (Guid × Oid) := labelsOf w.log

/-- The report says that a transfer is complete. -/
def Report.Completes (r : Report) : Prop := r.params.state = 3

instance (r : Report) : Decidable r.Completes :=
  inferInstanceAs (Decidable (r.params.state = 3))

/-- A report is dispatched. -/
def World.deliver (r : Report) (w : World) : World :=
  { w with delivered := w.delivered ++ [r] }

/-- A report is published. -/
def World.publish (r : Report) (w : World) : World :=
  { w with reports := w.reports ++ [r] }

-- =========================================================== the system

/-- What is allowed to happen. -/
structure Rules where
  dispatch : ServerPool → Report → Prop
  poll : ServerPool → Prop
  launcher : ServerPool → Bool → Prop
  reply : World → (e : Call) → Reply e → Prop

def Rules.free : Rules where
  dispatch _ _ := True
  poll _ := True
  launcher _ _ := True
  reply _ _ _ := True

/-- The start of a handler. -/
inductive Starts (conf : Conf) (ru : Rules) :
    ServerPool → HandlerId → Handler Unit → World → Prop
  | schedule {P : ServerPool} : ¬ P.Running .schedule →
      Starts conf ru P .schedule (schedule conf) P.world
  | pollRate {P : ServerPool} : ¬ P.Running .pollRate → ru.poll P →
      Starts conf ru P .pollRate (pollRate conf) P.world
  | status {P : ServerPool} {r : Report} : r ∈ P.world.reports →
      ru.dispatch P r →
      Starts conf ru P (.status P.world.delivered.length)
        (mldStatus conf r.task r.params) (P.world.deliver r)

/-- What the launcher does. -/
inductive Happens (ru : Rules) : ServerPool → World → Prop
  /-- it reports on one of its launches -/
  | publish {P : ServerPool} {r : Report} {b : Oid} :
      P.world.labels[r.launch]? = some (r.task, b) →
      Happens ru P (P.world.publish r)
  /-- it registers, or goes away -/
  | launcher {P : ServerPool} {b : Bool} : ru.launcher P b →
      Happens ru P { P.world with hasLauncher := b }

/-- The environment of a handler under some rules. -/
def Rules.env (ru : Rules) (h : HandlerId) : Env World Call Reply where
  eff := World.record h
  adm := ru.reply

def server (conf : Conf) (ru : Rules) :
    System World HandlerId Call Reply where
  env := ru.env
  spawn := Starts conf ru
  outside := Happens ru

end BigDataExpress

/-
The outcomes of a handler: an abstract transition system for one sjob.

A handler that runs to its end takes the document of its sjob to one of
a few others, up to likeness and whatever happens on the network in
between. An outcome is the `Delta` it ends with: the new document, the
rawjob state written, the launches issued, and what the look at the
other sjobs said. `ReportOutcome` lists the outcomes of a status report,
`AttemptOutcome` those of a scheduling attempt and `SampleOutcome` those
of the sampling of one flow.

The documents are written with the few updates of `Alike.lean`, so the
transition system can be read without the handlers.
-/
import BigDataExpress.Proofs.NetActs

namespace BigDataExpress

open Interact Collection

-- ================================================== outcomes of a report

/-- The block's checksums are verified before it is accepted. -/
def BlockFiles.checked (conf : Conf) (files : BlockFiles) : Bool :=
  conf.ldChecksum && files.checksum.isSome

section report

variable (conf : Conf) (files : Oid → BlockFiles) (launcher : Bool)
  (x : Sjob) (f : Flow) (params : StatusParams)

/-- The outcomes of a status report for the flow `f` of `x`; `v` is the
verdict on the block's checksums. -/
inductive ReportOutcome (v : Bool) : Delta → Prop
  /-- a report with another state -/
  | ignored : params.state ≠ 1 → params.state ≠ 2 → params.state ≠ 3 →
      ReportOutcome v ⟨x, none, [], none, none⟩
  /-- the transfer has started -/
  | started : params.state = 1 → ReportOutcome v
      ⟨(x.onFlow f.task (Flow.setState .transferring)).setState .transferring,
        none, [], none, none⟩
  /-- the transfer has failed -/
  | failed : params.state = 2 → ReportOutcome v
      ⟨((x.onFlow f.task (Flow.setState .error)).onBlock f.block
          (Block.setState .waiting)).fail,
        some .error, [], none, none⟩
  /-- the block is accepted, and the next one launched -/
  | next {fin : Bool} {n : Oid} : params.state = 3 → v = true →
      selectBlock f.block x.blocks true = (fin, some n) → launcher = true →
      ReportOutcome v
      ⟨((((x.onBlock f.block (Block.complete .finished)).onBlock n
          (Block.setState .transferring)).onFlow f.task
          (Flow.carry n)).setState .launching),
        some .transferring, [f.launchCmd (files n)], none, none⟩
  /-- the block is accepted, but there is no launcher for the next -/
  | nextFails {fin : Bool} {n : Oid} : params.state = 3 → v = true →
      selectBlock f.block x.blocks true = (fin, some n) →
      launcher = false → ReportOutcome v
      ⟨((x.onBlock f.block (Block.complete .finished)).onFlow f.task
          (Flow.setState .waiting)).fail,
        some .error, [], none, none⟩
  /-- the block is accepted, and it was the last one -/
  | last {seen : Bool} : params.state = 3 → v = true →
      selectBlock f.block x.blocks true = (true, none) → ReportOutcome v
      ⟨((x.onBlock f.block (Block.complete .finished)).onFlow f.task
          (Flow.setState .waitingToBeTeared)).setState .finished,
        if seen then some .finished else none, [], some seen, none⟩
  /-- the block is accepted, and other flows have the rest -/
  | rest {s : SjobState} : params.state = 3 → v = true →
      selectBlock f.block x.blocks true = (false, none) →
      s = x.state ∨ s ≠ .finished ∧ s ≠ .error → ReportOutcome v
      ⟨((x.onBlock f.block (Block.complete .finished)).onFlow f.task
          (Flow.setState .waitingToBeTeared)).setState s,
        none, [], none, none⟩
  /-- the block is refused, and launched again -/
  | retry : params.state = 3 → v = false → x.transferRetry < 2 →
      launcher = true → ReportOutcome v
      ⟨((x.onBlock f.block (Block.restart .transferring)).onFlow f.task
          (Flow.carry f.block)).setState .launching,
        some .transferring, [f.launchCmd (files f.block)], none, none⟩
  /-- the block is refused, and not launched again -/
  | retryFails {st : BlockState} : params.state = 3 → v = false →
      x.transferRetry ≥ 2 ∨ launcher = false →
      (∀ b ∈ x.blocks, b.id = f.block → st = b.state) → ReportOutcome v
      ⟨((x.onBlock f.block (Block.restart st)).onFlow f.task
          (Flow.setState .waiting)).fail,
        some .error, [], none, none⟩

variable {conf files launcher x f params}

theorem ReportOutcome.of_eq {v : Bool} {d d' : Delta}
    (h : ReportOutcome files launcher x f params v d) (e : d' = d) :
    ReportOutcome files launcher x f params v d' := e ▸ h

end report

-- ============================================= outcomes of an attempt

/-- The document with the flow of a first attempt. -/
def Sjob.withFlow (f : Flow) (x : Sjob) : Sjob := { x with flows := [f] }

@[simp] theorem Sjob.blockIds_withFlow (f : Flow) (x : Sjob) :
    (x.withFlow f).blockIds = x.blockIds := rfl

/-- The outcomes of the attempt to schedule the block `b` of `x`, and how
it ends; `answer` is whether the launcher accepts the launch. -/
inductive AttemptOutcome (files : Oid → BlockFiles) (launcher : Bool)
    (answer : Bool → Prop) (x : Sjob) (b : Oid) :
    Except String Unit → Delta → Prop
  /-- no DTN pair, no path, or the path does not work -/
  | failed : AttemptOutcome files launcher answer x b (.ok ())
      ⟨x.fail, some .error, [], none, none⟩
  /-- the launcher refuses the launch -/
  | refused {f : Flow} : f.state = .scheduling → f.block = b →
      launcher = true → answer false →
      AttemptOutcome files launcher answer x b (.ok ())
      ⟨(x.withFlow f).fail, some .error, [f.launchCmd (files b)], none,
        none⟩
  /-- the block is launched -/
  | launched {f : Flow} : f.state = .setting → f.block = b →
      launcher = true → answer true →
      AttemptOutcome files launcher answer x b (.ok ())
      ⟨((x.withFlow f).onBlock b (Block.setState .transferring)).setState
          .launching,
        some .transferring, [f.launchCmd (files b)], none, none⟩
  /-- there is no launcher to ask -/
  | thrown {f : Flow} {m : String} : f.state = .scheduling → f.block = b →
      launcher = false →
      AttemptOutcome files launcher answer x b (.error m)
      ⟨(x.withFlow f).setState .launching, none, [], none, none⟩

-- ============================================== outcomes of a sample

/-- The flow is sampled. -/
def Flow.Live (f : Flow) : Prop := f.state = .setting ∨ f.state = .transferring

/-- The outcomes of the sampling of the flow `f` of `x`, and what the
sampling says to go on with. -/
inductive SampleOutcome (x : Sjob) (f : Flow) : Option Int → Delta → Prop
  /-- nothing was sampled -/
  | skipped : SampleOutcome x f (some 0) ⟨x, none, [], none, none⟩
  /-- the launcher does not know the task -/
  | unknown : f.Live → SampleOutcome x f none
      ⟨((x.onFlow f.task (Flow.setState .error)).onBlock f.block
          (Block.setState .waiting)).fail,
        some .error, [], none, none⟩
  /-- the flow has progressed -/
  | counted {v : Int} : f.Live → SampleOutcome x f (some v)
      ⟨x.onBlock f.block (Block.addTx v), none, [], none, none⟩
  /-- the flow has made no progress for too long -/
  | inactive {v : Int} : f.Live → SampleOutcome x f (some v)
      ⟨(((x.onFlow f.task (Flow.setState .error)).onBlock f.block
          (Block.setState .waiting)).onBlock f.block (Block.addTx v)).fail,
        some .error, [], none, none⟩

end BigDataExpress

import NaslLint.Examination
import NaslLint.Report.Reporter

/-!
# Runs

A run lets the selected checks of the feed look at all files, then examines one file after the
other, and reports as it goes. A run can be interrupted before any piece of work; it then goes no
further but still reports its statistic.

The pieces of work are done one at a time and in their order. With several workers they could also
be handed over in another order; that order is fixed here, the time that a run takes is not.
-/

namespace NaslLint

structure RunOptions where
  report : ReportOptions
  excluded : Option Choice := none
  included : Option Choice := none
  /-- The number of the piece of work before which the run is interrupted. -/
  interruptAt : Option Int := none

namespace RunOptions

def selection (o : RunOptions) : Selection :=
  .of o.excluded o.included

end RunOptions

inductive RunEnd where
  | finished
  | interrupted
  | failed (f : Fault)
deriving DecidableEq, Repr

namespace Run

def interrupts (o : RunOptions) (work : Nat) : Bool :=
  o.interruptAt == some (work : Int)

/-- The results of a check of the feed. A repair of the feed adds nothing. -/
def feedResults (o : RunOptions) (name : String) (findings : List Finding) : Results :=
  let r := ({ ignoreWarnings := o.report.ignoreWarnings } : Results).add name findings
  if o.report.fix then r.add name [] else r

/-- Lets the checks of the feed look at all files; `work` numbers the pieces of work. -/
def feedPhase (o : RunOptions) (files : List Path) (w : Surroundings) :
    Nat → List FeedCheck → ReportState → ReportState × RunEnd
  | _, [], s => (s, .finished)
  | work, c :: more, s =>
    if interrupts o work then (s, .interrupted)
    else
      let found := c.run { root := o.report.root, files } { w with tree := s.tree }
      match found.fault with
      | some f => (s, .failed f)
      | none =>
        let steps := Report.feedSteps o.report (feedResults o c.name found.results)
        match ReportStep.performAll o.report s steps with
        | (s, some f) => (s, .failed f)
        | (s, none) => feedPhase o files w (work + 1) more s

def fileResults (o : RunOptions) (reports : List CheckReport) : Results :=
  reports.foldl (fun r c =>
    let r := r.add c.check c.found.results
    match c.repaired with
    | none => r
    | some fixes => r.add c.check fixes.results) { ignoreWarnings := o.report.ignoreWarnings }

/-- Examines the files one after the other; `work` numbers the pieces of work and `pos` the
files. -/
def filePhase (o : RunOptions) (checks : List FileCheck) (w : Surroundings) :
    Nat → Nat → List Path → ReportState → ReportState × RunEnd
  | _, _, [], s => (s, .finished)
  | work, pos, file :: more, s =>
    if interrupts o work then (s, .interrupted)
    else
      let subject := Subject.ofTree s.tree o.report.root (file.resolve s.tree.here)
      let (reports, fault, tree) :=
        examineUntilFault o.report.fix subject checks { w with tree := s.tree }
      let s := { s with tree }
      match fault with
      | some f => (s, .failed f)
      | none =>
        match Report.fileSteps o.report s.tree.here s.filesCount file pos (fileResults o reports) with
        | .error f => (s, .failed f)
        | .ok steps =>
          match ReportStep.performAll o.report s steps with
          | (s, some f) => (s, .failed f)
          | (s, none) => filePhase o checks w (work + 1) (pos + 1) more s

/-- Both phases of a run. The second one is not begun if the first is interrupted. -/
def phases (o : RunOptions) (files : List Path) (w : Surroundings) (s : ReportState) :
    ReportState × RunEnd :=
  let s := { s with filesCount := files.length }
  match feedPhase o files w 0 o.selection.feedChecks s with
  | (s, .finished) =>
    filePhase o o.selection.fileChecks w o.selection.feedChecks.length 1 files s
  | stopped => stopped

def announce (o : RunOptions) (s : ReportState) : ReportState × Option Fault :=
  if o.selection.isEmpty then (s, some .noChecks)
  else ReportStep.performAll o.report s (Report.overviewSteps o.report o.excluded o.included)

end Run

/-- Runs the selected checks on files. The answer tells whether no error was found. -/
def run (o : RunOptions) (files : List Path) (w : Surroundings) (s : ReportState) :
    ReportState × Except Fault Bool :=
  match Run.announce o s with
  | (s, some f) => (s, .error f)
  | (s, none) =>
    match Run.phases o files w s with
    | (s, .failed f) => (s, .error f)
    | (s, _) =>
      let elapsed := w.elapsed
      match ReportStep.perform o.report s (Report.info 0 s!"Time elapsed: {elapsed}") with
      | (s, some f) => (s, .error f)
      | (s, none) =>
        match ReportStep.performAll o.report s (Report.statisticSteps o.report s.counts) with
        | (s, some f) => (s, .error f)
        | (s, none) => (s, .ok (s.counts.total.errors == 0))

end NaslLint

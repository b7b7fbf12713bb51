import NaslLint.Catalogue
import NaslLint.Report.Line
import NaslLint.Report.Results

/-!
# Reporting

What is said about results depends on how much is asked for; what is counted does not. A report is
a list of steps, each of which counts a finding or says a line. Performing the steps prints the
lines on the terminal and writes them to the log files, which can fail.
-/

namespace NaslLint

structure ReportOptions where
  root : Path
  fix : Bool := false
  logFile : Option Path := none
  statisticLogFile : Option Path := none
  statistic : Bool := true
  verbosity : Int := 0
  ignoreWarnings : Bool := false

/-- A step of a report. A table line goes to the log of the statistic. -/
inductive ReportStep where
  | count (check : String) (severity : Severity)
  | say (line : Line)
  | tabulate (line : Line)
deriving DecidableEq, Repr

/-- The state of reporting: what has been counted, what the terminal shows, the number of files, and
the files, among them the logs. -/
structure ReportState where
  counts : Counts := {}
  terminal : List Line := []
  filesCount : Int := 0
  tree : FileTree

def ReportState.tell (s : ReportState) (lines : List Line) : ReportState :=
  { s with terminal := s.terminal ++ lines }

namespace ReportStep

def logged (line : Line) : String :=
  let m := line.message
  match line.kind with
  | .info => "\t" ++ m
  | .heading => "\n\n" ++ m
  | _ => String.ofList ("\t\t".toList ++ Text.replaceAll ['\n'] "\n\t\t".toList m.toList)

def appendLog (log : Option Path) (text : String) (tree : FileTree) : Except AccessError FileTree :=
  match log with
  | none => .ok tree
  | some path => tree.append path (Text.toUtf8 (text ++ "\n"))

/-- Performs a step. A line is on the terminal even if it cannot be logged. -/
def perform (o : ReportOptions) (s : ReportState) : ReportStep → ReportState × Option Fault
  | count check severity => ({ s with counts := s.counts.count check severity }, none)
  | say line =>
    let shown := { s with terminal := s.terminal ++ [line] }
    match appendLog o.logFile (logged line) s.tree with
    | .ok tree => ({ shown with tree }, none)
    | .error e => (shown, some (.access e))
  | tabulate line =>
    let shown := { s with terminal := s.terminal ++ [line] }
    match appendLog o.statisticLogFile line.message s.tree with
    | .ok tree => ({ shown with tree }, none)
    | .error e => (shown, some (.access e))

def performAll (o : ReportOptions) : ReportState → List ReportStep → ReportState × Option Fault
  | s, [] => (s, none)
  | s, step :: more =>
    match step.perform o s with
    | (s, none) => performAll o s more
    | (s, some f) => (s, some f)

end ReportStep

namespace Report

def info (indent : Nat) (message : String) : ReportStep :=
  .say ⟨.info, indent, message⟩

def heading (message : String) : ReportStep :=
  .say ⟨.heading, 0, message⟩

def kindOf : Severity → LineKind
  | .error => .error
  | .warning => .warning
  | .fix | .note => .ok

def checkSteps (o : ReportOptions) (name : String) (findings : List Finding) : List ReportStep :=
  (if !findings.isEmpty && o.verbosity > 0 then [info 4 s!"Results for plugin {name}"]
  else if o.verbosity > 2 then [.say ⟨.ok, 4, s!"No results for plugin {name}"⟩]
  else []) ++
  findings.flatMap fun f =>
    .count name f.severity ::
      if o.verbosity > 0 then [.say ⟨kindOf f.severity, 8, f.message⟩] else []

def hasHeading (o : ReportOptions) (r : Results) : Bool :=
  (r.any && o.verbosity > 0) || o.verbosity > 1

def feedSteps (o : ReportOptions) (r : Results) : List ReportStep :=
  r.entries.flatMap fun (name, findings) =>
    (if hasHeading o r then [heading s!"Run plugin {name}"] else []) ++ checkSteps o name findings

/-- The steps for the results of a file, the `pos`-th of `count`. A heading names the file as seen
from the root. -/
def fileSteps (o : ReportOptions) (here : Location) (count : Int) (file : Path) (pos : Int)
    (r : Results) : Except Fault (List ReportStep) := do
  let body := r.entries.flatMap fun (name, findings) => checkSteps o name findings
  if hasHeading o r then
    match file.fromRoot? o.root here with
    | none => .error .outsideRoot
    | some relative => return heading s!"Checking {relative} ({pos}/{count})" :: body
  else return body

def overviewSteps (o : ReportOptions) (excluded included : Option Choice) : List ReportStep :=
  if o.verbosity > 2 then
    let list (title : String) (names : List String) : ReportStep :=
      info 0 (title ++ ": " ++ ", ".intercalate names)
    let chosen (title : String) (c : Option Choice) : List ReportStep :=
      match c with
      | none => []
      | some c => if c.isEmpty then [] else [list title c.shown]
    chosen "Excluded Plugins" excluded ++ chosen "Included Plugins" included ++
      [list "Running plugins" (Selection.of excluded included).names]
  else []

/-! ## The statistic -/

def leftAligned (width : Nat) (s : String) : String :=
  s ++ String.ofList (List.replicate (width - s.length) ' ')

/-- A number right-aligned in a column of eight characters. -/
def rightAligned (n : Nat) : String :=
  let digits := Nat.toDigits 10 n
  String.ofList (List.replicate (8 - digits.length) ' ' ++ digits)

/-- The cells of a row that are shown: fixes only if there can be any, warnings unless they are left
out. -/
def columns {α : Type} (o : ReportOptions) (errors warnings fixes : α) : List α :=
  [errors] ++ (if o.ignoreWarnings then [] else [warnings]) ++ (if o.fix then [fixes] else [])

def row (o : ReportOptions) (name : String) (t : Tally) : String :=
  " ".intercalate
    (leftAligned 48 name :: (columns o t.errors t.warnings t.fixes).map rightAligned)

def tableHead (o : ReportOptions) : String :=
  " ".intercalate (leftAligned 48 "Plugin" :: columns o "  Errors" "Warnings" "   Fixes")

def tableRule (o : ReportOptions) : String :=
  let width := if o.fix && !o.ignoreWarnings then 75
    else if !o.fix && o.ignoreWarnings then 59 else 67
  String.ofList (List.replicate width '-')

/-- The steps for the statistic. A check with errors is shown as an error, any other one as a
warning. -/
def statisticSteps (o : ReportOptions) (c : Counts) : List ReportStep :=
  if o.statistic then
    let line (kind : LineKind) (text : String) : ReportStep := .tabulate ⟨kind, 0, text⟩
    [line .plain (tableHead o), line .plain (tableRule o)] ++
    (c.byCheck.map fun (name, t) =>
      line (if t.errors > 0 then .error else .warning) (row o name t)) ++
    [line .plain (tableRule o), line .info (row o "sum" c.total)]
  else []

def notFoundSteps (name : String) : List ReportStep :=
  [.say ⟨.error, 0, s!"Plugin {name} is not existing."⟩]

def unknownSteps (name : String) : List ReportStep :=
  [.say ⟨.error, 0, s!"Plugin {name} can not be read."⟩]

end Report

end NaslLint

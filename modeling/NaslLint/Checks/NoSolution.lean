import NaslLint.Check
import NaslLint.Checks.Severity
import NaslLint.Date.Format
import NaslLint.Script.Tag

/-!
# Vulnerabilities without a solution

Scripts whose solution says that none is available as of some day are sorted by how long ago that
day is, and counted.
-/

namespace NaslLint.Checks.NoSolution

open Pattern

def name : String :=
  "check_no_solution"

/-- The day named in a solution, from `as of` to the next full stop. -/
def asOf : Pattern :=
  .chain [phrase "as of", .blanks, .group "date" Script.shortText, "."]

/-- A day with an ordinal suffix and a character in front of it. -/
def ordinalDay : Pattern :=
  .chain [.group "date" (.chain [.one inLine, .run .longest 1 (some 2) Text.isDigit]),
    wordOf ["st", "nd", "rd", "th"]]

def formats : List DateFormat :=
  [.longDay, .shortDay, .slashedDay]

def readDay? (t : List Char) : Option DateTime :=
  let plain := ordinalDay.replaceAll (·.group "date") t
  formats.findSome? fun f => f.read? plain

/-- How things stand with the solution of a vulnerability. -/
inductive Status where
  /-- There is a solution, or nothing to solve. -/
  | settled
  /-- No solution is stated. -/
  | untagged
  /-- The solution names no day. -/
  | undated
  /-- The solution names a day that cannot be read. -/
  | unreadable (date : List Char)
  | olderThanYear
  | olderThanHalfYear
  | youngerThanMonth
  /-- Between one month and half a year old. -/
  | inBetween
deriving DecidableEq, Repr

/-- The status of a day since which there has been no solution. -/
def statusOfDay (now since : DateTime) : Status :=
  if since.isDaysBefore 365 now then .olderThanYear
  else if since.isDaysBefore 186 now then .olderThanHalfYear
  else if since.isWithinDays 31 now then .youngerThanMonth
  else .inBetween

def status (now : DateTime) (t : List Char) : Status :=
  if (Tag.solutionType.pattern.find? t).any fun m => m.group "value" != "NoneAvailable".toList then
    .settled
  else if hasNoSeverity t then .settled
  else
    match Tag.solution.pattern.find? t with
    | none => .untagged
    | some solution =>
      match asOf.find? (solution.group "value") with
      | none => .undated
      | some m =>
        let date := m.group "date"
        match readDay? date with
        | none => .unreadable date
        | some since => statusOfDay now since

def Status.isMissing : Status → Bool
  | .settled | .untagged | .undated => false
  | _ => true

def Status.remark? : Status → Option (Severity × String)
  | .settled | .undated | .inBetween => none
  | .untagged => some (.error, "No Solution tag found.")
  | .unreadable date =>
    let shown := String.ofList date
    some (.error, s!"Can not convert '{shown}' to datetime")
  | .olderThanYear => some (.warning, "Missing solution, older than 1 year.")
  | .olderThanHalfYear => some (.warning, "Missing solution, older than 6 months.")
  | .youngerThanMonth => some (.warning, "Missing solution, but younger than 31 days.")

/-- The summary of all scripts, unless no solution is missing. -/
def summary (all : List Status) : List Finding :=
  let warn (label : String) (n : Nat) : Finding :=
    { severity := .warning, message := s!"{label}: {n}", check := some name }
  let total := all.countP Status.isMissing
  if total = 0 then []
  else
    [warn "total missing solutions" total,
     warn "missing solutions younger 1 month" (all.count .youngerThanMonth),
     warn "missing solutions older than 6 months" (all.count .olderThanHalfYear),
     warn "missing solutions older than 1 year" (all.count .olderThanYear)]

/-- The finding about a file. The file has to lie below the root if there is anything to say. -/
def finding? (here : Location) (root file : Path) (s : Status) : Except Fault (Option Finding) :=
  match s.remark? with
  | none => .ok none
  | some (severity, text) =>
    match file.fromRoot? root here with
    | none => .error .outsideRoot
    | some relative =>
      .ok (some { severity, message := s!"{relative}: {text}", file := some file.toString,
                  check := some name })

/-- Judges the files in order, `before` being the statuses of those before them. Include files do
not count. -/
def judgeAll (now : DateTime) (tree : FileTree) (root : Path) :
    List Status → List Path → Outcome Finding
  | before, [] => .done (summary before)
  | before, file :: more =>
    if file.isInclude then judgeAll now tree root before more
    else
      match tree.readText file with
      | .error e => .fail (.access e)
      | .ok t =>
        let s := status now t
        match finding? tree.here root file s with
        | .error f => .fail f
        | .ok finding? => .following finding?.toList (judgeAll now tree root (before ++ [s]) more)

end NoSolution

def noSolution : FeedCheck where
  name := NoSolution.name
  title := "CheckNoSolution"
  run feed w := NoSolution.judgeAll w.now w.tree feed.root [] feed.files

end NaslLint.Checks

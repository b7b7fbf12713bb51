import NaslLint.Check

/-!
# Examination of a file

A file is examined by running checks on it one after the other. Each check sees the text read at
the beginning; where repairs are asked for, a check that came to its end repairs the file before
the next one runs.
-/

namespace NaslLint

/-- What came of one check of a file. There is a repair part only if repairs are asked for and the
check came to its end. -/
structure CheckReport where
  check : String
  found : Outcome Finding
  repaired : Option (Outcome Finding) := none
deriving Repr

namespace CheckReport

def fault? (r : CheckReport) : Option Fault :=
  r.found.fault <|> r.repaired.bind (·.fault)

/-- All findings of a check, those about repairs last. -/
def findings (r : CheckReport) : List Finding :=
  r.found.results ++ (r.repaired.map (·.results)).getD []

end CheckReport

/-- Runs a check on a file, and its repair if asked for. The files may have changed afterwards. -/
def FileCheck.examine (c : FileCheck) (fix : Bool) (s : Subject) (w : Surroundings) :
    CheckReport × FileTree :=
  let found := c.findings s w
  if fix && found.fault.isNone then
    match c.applyRepair s w with
    | .ok (fixes, tree) => ({ check := c.name, found, repaired := some (.done fixes) }, tree)
    | .error f => ({ check := c.name, found, repaired := some (.fail f) }, w.tree)
  else ({ check := c.name, found }, w.tree)

def FeedCheck.examine (c : FeedCheck) (fix : Bool) (feed : Feed) (w : Surroundings) :
    CheckReport :=
  let found := c.run feed w
  { check := c.name, found,
    repaired := if fix && found.fault.isNone then some (.done []) else none }

/-- Runs checks on a file one after the other, all of them, whether or not one fails. -/
def examineAll (fix : Bool) (s : Subject) :
    List FileCheck → Surroundings → List CheckReport × FileTree
  | [], w => ([], w.tree)
  | c :: more, w =>
    let (report, tree) := c.examine fix s w
    let (reports, tree) := examineAll fix s more { w with tree }
    (report :: reports, tree)

def examineUntilFault (fix : Bool) (s : Subject) :
    List FileCheck → Surroundings → List CheckReport × Option Fault × FileTree
  | [], w => ([], none, w.tree)
  | c :: more, w =>
    let (report, tree) := c.examine fix s w
    match report.fault? with
    | some f => ([], some f, tree)
    | none =>
      let (reports, fault, tree) := examineUntilFault fix s more { w with tree }
      (report :: reports, fault, tree)

end NaslLint

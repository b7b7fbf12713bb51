import NaslLint.Finding

/-!
# Results of checks

The findings of checks are collected by the name of the check, in the order in which the checks
first deliver. Warnings can be left out.
-/

namespace NaslLint

/-- Findings by check. `any` tells whether a finding has ever been kept. -/
structure Results where
  ignoreWarnings : Bool := false
  entries : List (String × List Finding) := []
  any : Bool := false
deriving Repr

namespace Results

def kept (r : Results) (findings : List Finding) : List Finding :=
  if r.ignoreWarnings then findings.filter (·.severity ≠ .warning) else findings

/-- Adds findings under a name, behind those that are there. -/
def insert (name : String) (findings : List Finding) :
    List (String × List Finding) → List (String × List Finding)
  | [] => [(name, findings)]
  | (n, old) :: more =>
    if n == name then (n, old ++ findings) :: more else (n, old) :: insert name findings more

def add (r : Results) (name : String) (findings : List Finding) : Results :=
  let new := r.kept findings
  { r with entries := insert name new r.entries, any := r.any || !new.isEmpty }

end Results

/-- How many findings of each weight there are. -/
structure Tally where
  errors : Nat := 0
  warnings : Nat := 0
  fixes : Nat := 0
deriving DecidableEq, Repr

namespace Tally

/-- Counts a finding. Notes are not counted. -/
def count (t : Tally) : Severity → Tally
  | .error => { t with errors := t.errors + 1 }
  | .warning => { t with warnings := t.warnings + 1 }
  | .fix => { t with fixes := t.fixes + 1 }
  | .note => t

end Tally

/-- The number of findings in total and by check, in the order in which the checks are first
counted. -/
structure Counts where
  total : Tally := {}
  byCheck : List (String × Tally) := []
deriving Repr

namespace Counts

def countUnder (name : String) (s : Severity) : List (String × Tally) → List (String × Tally)
  | [] => [(name, ({} : Tally).count s)]
  | (n, t) :: more =>
    if n == name then (n, t.count s) :: more else (n, t) :: countUnder name s more

def count (c : Counts) (name : String) : Severity → Counts
  | .note => c
  | s => { total := c.total.count s, byCheck := countUnder name s c.byCheck }

end Counts

end NaslLint

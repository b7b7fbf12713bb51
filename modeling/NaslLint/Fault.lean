import NaslLint.Glob

/-!
# Faults

What can end the work on a file, or a whole run, before it is done.
-/

namespace NaslLint

/-- Why work on a file, or a whole run, ended early. -/
inductive Fault where
  /-- A file could not be read or written. -/
  | access (e : AccessError)
  /-- A file does not lie below the root directory. -/
  | outsideRoot
  /-- A number has too many digits to be read. -/
  | numberTooLong
  /-- A listed dependency has no name. -/
  | namelessDependency
  /-- The category of a dependency is needed before any has been determined. -/
  | undeterminedCategory
  /-- A repair is asked of a check that has not looked at the file. -/
  | nothingPrepared
  /-- No check is selected. -/
  | noChecks
  /-- There is no one to do the work. -/
  | noWorkers
  /-- A text that should be a file pattern is none. -/
  | pattern (e : GlobError)
  /-- The version control system has failed. -/
  | history
deriving DecidableEq, Repr

end NaslLint

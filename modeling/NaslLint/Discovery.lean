import NaslLint.Fault
import NaslLint.Report.Line

/-!
# Finding the files to examine

Files are found by patterns below directories, or they are listed in a file.

* `Discovery.patterns` completes the patterns that are given.
* `Discovery.files` lists the files that the patterns select.
-/

namespace NaslLint.Discovery

def defaultPatterns : List String :=
  ["*.nasl", "*.inc"]

def inSubdirectories (pattern : String) : String :=
  "**/" ++ pattern

structure Patterns where
  included : List String
  excluded : Option (List String)
deriving DecidableEq, Repr

/-- The patterns to use when the given ones are asked for. Without patterns for files to examine,
the default ones are taken. -/
def patterns (included excluded : Option (List String)) (recursive : Bool) : Patterns :=
  let wanted :=
    match included with
    | some (p :: more) => p :: more
    | _ => defaultPatterns
  if recursive then
    { included := wanted.map inSubdirectories
      excluded := excluded.map (·.map inSubdirectories) }
  else { included := wanted, excluded }

def recursionNotice (recursive : Bool) : List Line :=
  if recursive then [] else [⟨.warning, 0, "Running in non-recursive mode!"⟩]

def selected (tree : FileTree) (directories : List Path) (patterns : List String) :
    Except GlobError (List Path) := do
  let found ← directories.mapM fun d => do
    let found ← patterns.mapM fun p => return (← Glob.ofString p).select tree d
    return found.flatten
  return found.flatten

def files (tree : FileTree) (directories : List Path) (p : Patterns) :
    Except GlobError (List Path) := do
  let found ← selected tree directories p.included
  match p.excluded with
  | none => return found
  | some patterns =>
    let leftOut ← selected tree directories patterns
    return found.filter fun f => !leftOut.contains f

/-- The files that are listed in a file, one in a line. -/
def listed (tree : FileTree) (list : Path) : Except AccessError (List Path) := do
  return (Text.lines (← tree.readUtf8 list)).map Path.ofChars

def missingList (list : Path) : Line :=
  ⟨.error, 0, s!"File {list} containing the file list not found."⟩

end NaslLint.Discovery

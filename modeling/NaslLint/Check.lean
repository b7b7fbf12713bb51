import NaslLint.Date.Calendar
import NaslLint.Finding
import NaslLint.Text.Find

/-!
# Checks

A check of single files looks at one file and remarks on it; some of them can also repair what they
remark on. All checks of a file share one reading of its text: what a repair writes is not seen by
later checks, unless they read the file's bytes themselves. A check of the feed looks at all files
together.
-/

namespace NaslLint

/-- The file under examination and the directory that holds all scripts. The text is the one read
when the examination began. -/
structure Subject where
  root : Path
  file : Path
  text : Except Fault (List Char)

namespace Subject

def ofTree (tree : FileTree) (root file : Path) : Subject :=
  { root, file, text := (tree.readText file).mapError Fault.access }

/-- Goes on with the text, or fails if there is none. -/
def withText {α : Type} (s : Subject) (k : List Char → Outcome α) : Outcome α :=
  match s.text with
  | .ok t => k t
  | .error f => .fail f

def unlessInclude {α : Type} (s : Subject) (work : Outcome α) : Outcome α :=
  if s.file.isInclude then .done [] else work

def onText {α : Type} (s : Subject) (remarks : List Char → List α) : Outcome α :=
  s.withText fun t => .done (remarks t)

/-- Remarks on the text of a file that is no include file. The text is read first. -/
def onScript {α : Type} (s : Subject) (remarks : List Char → List α) : Outcome α :=
  s.withText fun t => s.unlessInclude (.done (remarks t))

/-- Remarks on the text of a file that is no include file. An include file is not read. -/
def onScriptOnly {α : Type} (s : Subject) (remarks : List Char → List α) : Outcome α :=
  s.unlessInclude (s.onText remarks)

def isAmong (s : Subject) (names : List String) : Bool :=
  Text.mentionsAny names s.file.toString

end Subject

/-- An order in which the files of a set are taken. -/
structure Arrangement where
  arrange : List Path → List Path
  perm : ∀ files, (arrange files).Perm files

def Arrangement.byText : Arrangement where
  arrange files := files.mergeSort fun a b => !(b.toString < a.toString)
  perm files := List.mergeSort_perm files _

/-- What surrounds the examination: the files as they are now, the time and how long a run takes,
how the encoding of bytes is detected, which texts are addresses of web pages, what the spell checker
prints when it is called with arguments, the directory of its word lists, and the order of files. -/
structure Surroundings where
  tree : FileTree
  now : DateTime
  elapsed : String := "0:00:00"
  detectEncoding : Bytes → Option String := fun _ => some "ascii"
  isUrl : List Char → Bool := fun _ => true
  spell : List String → List Char := fun _ => []
  wordLists : String := ""
  arrangement : Arrangement := .byText

/-- A new text for a file and what to say about it. -/
structure Repair where
  text : List Char
  message : String
deriving DecidableEq, Repr

def Repair.finding (r : Repair) (file : Path) (check : String) : Finding :=
  { severity := .fix, message := r.message, file := some file.toString, check := some check }

/-- A check of single files. It can be chosen by its name or by its title. -/
structure FileCheck where
  name : String
  title : String
  run : Subject → Surroundings → Outcome Remark
  repair : Subject → Surroundings → Except Fault (Option Repair) := fun _ _ => .ok none

namespace FileCheck

def findings (c : FileCheck) (s : Subject) (w : Surroundings) : Outcome Finding :=
  (c.run s w).map fun r => r.toFinding s.file c.name

/-- Repairs the file: its new bytes are written, and the repair is a finding. -/
def applyRepair (c : FileCheck) (s : Subject) (w : Surroundings) :
    Except Fault (List Finding × FileTree) := do
  match ← c.repair s w with
  | none => return ([], w.tree)
  | some r =>
    let tree ← (w.tree.write s.file (Text.toLatin1 r.text)).mapError Fault.access
    return ([r.finding s.file c.name], tree)

end FileCheck

/-- Files that are examined together and the directory that holds all scripts. -/
structure Feed where
  root : Path
  files : List Path

structure FeedCheck where
  name : String
  title : String
  run : Feed → Surroundings → Outcome Finding

end NaslLint

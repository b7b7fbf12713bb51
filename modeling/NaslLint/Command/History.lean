import NaslLint.Command.Lint

/-!
# Checks of changes

Two commands look at the changes that a version control system reports for scripts. One finds
scripts whose OID has changed, the other one scripts that were changed without a new version and a
new date of modification.
-/

namespace NaslLint

/-- What the version control system answers: whether there is a repository at all, the names of the
changed files, and the changes of each file. An answer is missing if the system fails. -/
structure Repository where
  present : Bool := true
  changedFiles : Option (List Char) := some []
  changes : Path → Option (List Char)

inductive HistoryOption where
  | range
  | files
deriving DecidableEq, Repr

/-- The range of changes to look at and the files, or none for all changed files. -/
structure HistorySettings where
  range : String := ""
  files : List Path := []

/-- What a session prints: text for the reader and complaints. The messages on a misused command
line are not among them. -/
structure Printout where
  text : String := ""
  complaints : String := ""

namespace Printout

instance : Append Printout :=
  ⟨fun a b => ⟨a.text ++ b.text, a.complaints ++ b.complaints⟩⟩

def line (s : String) : Printout :=
  { text := s ++ "\n" }

def complaint (s : String) : Printout :=
  { complaints := s ++ "\n" }

end Printout

inductive HistoryEnding where
  | refused (r : Refusal)
  | exit (code : Nat)
  | failed (f : Fault)
deriving DecidableEq, Repr

namespace History

/-- The command line. The files have to pass a test. -/
def command (accepts : Path → Bool) : Command HistoryOption HistorySettings where
  forms :=
    [.help, ⟨["-c", "--commit_range"], .one, some .range⟩, ⟨["-f", "--files"], .several, some .files⟩]
  start := {}
  take o values s :=
    match o with
    | .range => some { s with range := values.headD "" }
    | .files =>
      let files := values.map Path.ofString
      if files.all accepts then some { s with files } else none
  required := [[.range]]

def filesToCheck? (s : HistorySettings) (r : Repository) : Option (List Path) :=
  if s.files.isEmpty then r.changedFiles.map fun names => (Text.lines names).map Path.ofChars
  else some s.files

/-- Looks at the changes of the existing scripts among the files. The judgement of a file is what is
printed and whether there is something wrong. -/
def judgeAll (tree : FileTree) (r : Repository) (judge : Path → List Char → Printout × Bool) :
    List Path → Printout × Except Fault Bool
  | [] => ({}, .ok false)
  | file :: more =>
    if file.suffix != ".nasl" || !tree.exists? file then judgeAll tree r judge more
    else
      let opening := Printout.line s!"Check file {file}"
      match r.changes file with
      | none => (opening, .error .history)
      | some changes =>
        let (printed, wrong) := judge file changes
        let (rest, result) := judgeAll tree r judge more
        (opening ++ printed ++ rest, result.map (wrong || ·))

def session (accepts : Path → Bool) (judge : Path → List Char → Printout × Bool)
    (words : List String) (tree : FileTree) (r : Repository) : Printout × HistoryEnding :=
  if !r.present then
    (.line "Your current working directory doesn't belong to a git repository", .exit 1)
  else
    match (command accepts).read words with
    | .error refusal => ({}, .refused refusal)
    | .ok s =>
      match filesToCheck? s r with
      | none => ({}, .failed .history)
      | some files =>
        match judgeAll tree r judge files with
        | (printed, .error f) => (printed, .failed f)
        | (printed, .ok wrong) => (printed, .exit (if wrong then 2 else 0))

/-! ## Changed OIDs -/

/-- A line with the OID of a script behind a mark of change. -/
def markedOid (mark : String) : Pattern :=
  .chain [.lineStart, mark, .blanks, "script_oid", .blanks, "(", .blanks,
    .one (Pattern.among "\"'"),
    .group "oid" (.run .longest 1 none fun c => Text.isAsciiDigit c || c == '.'),
    .one (Pattern.among "\"'"), .blanks, ")", .blanks, ";"]

/-- Finds out whether changes replace an OID by another one. -/
def judgeOid (file : Path) (changes : List Char) : Printout × Bool :=
  match (markedOid "+").find? changes, (markedOid "-").find? changes with
  | some added, some removed =>
    let new := String.ofList (added.group "oid")
    let old := String.ofList (removed.group "oid")
    if new == old then ({}, false)
    else
      (.line (s!"OID of VT {file} was changed. This is only allowed in rare cases " ++
        "(e.g. a duplicate OID got fixed or a single VT was split into two VTs)." ++
        s!"\nOID NEW: {new}\nOID OLD: {old}"), true)
  | _, _ => ({}, false)

/-! ## Missing updates -/

def added (p : Pattern) : Pattern :=
  .chain [.lineStart, "+", .blanks, p]

/-- Finds out whether changes lack a new version or a new date of modification. -/
def judgeUpdate (file : Path) (changes : List Char) : Printout × Bool :=
  let lacking (p : Pattern) (what : String) : Printout × Bool :=
    if (added p).occursIn changes then ({}, false)
    else (.complaint s!"{file}: Missing updated {what}", true)
  let (printed, noVersion) := lacking Script.anyVersion "script_version"
  let (printed', noDate) := lacking Script.anyLastModification "last_modification"
  (printed ++ printed', noVersion || noDate)

end History

def findChangedOids (words : List String) (tree : FileTree) (r : Repository) :
    Printout × HistoryEnding :=
  History.session tree.exists? History.judgeOid words tree r

def findMissingUpdates (words : List String) (tree : FileTree) (r : Repository) :
    Printout × HistoryEnding :=
  History.session tree.isFile History.judgeUpdate words tree r

end NaslLint

import NaslLint.Command.Options
import NaslLint.Discovery
import NaslLint.Run

/-!
# The linter's command line

The command line tells which files to examine, which checks to run and how to report. A session
shows lines on the terminal, may change files, and ends in one of several ways.
-/

namespace NaslLint

/-- How a session ends: it runs to its end, exits with a code, or fails. -/
inductive Ending where
  | returned
  | exit (code : Nat)
  | failed (f : Fault)
deriving DecidableEq, Repr

def Ending.status : Ending → Nat
  | returned => 0
  | exit code => code
  | failed _ => 1

def Refusal.exitCode : Refusal → Nat
  | .help => 0
  | .misuse => 2

/-! ## Options -/

inductive LintOption where
  | version
  | full
  | ignoreWarnings
  | root
  | directories
  | files
  | fileList
  | verbose
  | logFile
  | statisticLogFile
  | nonRecursive
  | includePatterns
  | excludePatterns
  | includeChecks
  | excludeChecks
  | fix
  | jobs
  | noStatistic
deriving DecidableEq, Repr

structure LintSettings where
  version : Bool := false
  full : Bool := false
  ignoreWarnings : Bool := false
  root : Option Path := none
  directories : Option (List Path) := none
  files : Option (List Path) := none
  fileList : Option Path := none
  verbosity : Nat := 0
  logFile : Option Path := none
  statisticLogFile : Option Path := none
  nonRecursive : Bool := false
  includePatterns : Option (List String) := none
  excludePatterns : Option (List String) := none
  includeChecks : Option (List String) := none
  excludeChecks : Option (List String) := none
  fix : Bool := false
  jobs : Int
  noStatistic : Bool := false

/-- The number of jobs on a machine: half of its processors if none or less than one is asked for,
and never more than it has. -/
def jobs? (processors : Nat) (wanted : String) : Option Int :=
  if wanted.isEmpty then some (processors / 2 : Nat)
  else
    (Text.readInt? wanted.toList).map fun (n : Int) =>
      if n > processors then (processors : Int) else if n < 1 then (processors / 2 : Nat) else n

/-- The path of a directory: whatever exists there has to be one. -/
def directory? (tree : FileTree) (s : String) : Option Path :=
  let p := Path.ofString s
  if tree.exists? p && !tree.isDirectory p then none else some p

def file? (tree : FileTree) (s : String) : Option Path :=
  let p := Path.ofString s
  if tree.exists? p && !tree.isFile p then none else some p

namespace LintOption

def forms : List (OptionForm LintOption) :=
  [.help,
   ⟨["-V", "--version"], .flag, some version⟩,
   ⟨["-f", "--full"], .flag, some full⟩,
   ⟨["--ignore-warnings"], .flag, some ignoreWarnings⟩,
   ⟨["-r", "--root"], .one, some root⟩,
   ⟨["-d", "--dirs"], .several, some directories⟩,
   ⟨["--files"], .several, some files⟩,
   ⟨["--from-file"], .one, some fileList⟩,
   ⟨["--verbose", "-v"], .flag, some verbose⟩,
   ⟨["--log-file"], .one, some logFile⟩,
   ⟨["--log-file-statistic"], .one, some statisticLogFile⟩,
   ⟨["--non-recursive"], .flag, some nonRecursive⟩,
   ⟨["--include-patterns"], .several, some includePatterns⟩,
   ⟨["--exclude-patterns"], .several, some excludePatterns⟩,
   ⟨["--include-tests"], .several, some includeChecks⟩,
   ⟨["--exclude-tests"], .several, some excludeChecks⟩,
   ⟨["--fix"], .flag, some fix⟩,
   ⟨["-j", "--n-jobs"], .one, some jobs⟩,
   ⟨["--no-statistic"], .flag, some noStatistic⟩]

def take (tree : FileTree) (processors : Nat) (o : LintOption) (values : List String)
    (s : LintSettings) : Option LintSettings :=
  let value := values.headD ""
  match o with
  | version => some { s with version := true }
  | full => some { s with full := true }
  | ignoreWarnings => some { s with ignoreWarnings := true }
  | root => do return { s with root := ← directory? tree value }
  | directories => do return { s with directories := ← values.mapM (directory? tree) }
  | files => do return { s with files := ← values.mapM (file? tree) }
  | fileList => do return { s with fileList := ← file? tree value }
  | verbose => some { s with verbosity := s.verbosity + 1 }
  | logFile => do return { s with logFile := ← file? tree value }
  | statisticLogFile => do return { s with statisticLogFile := ← file? tree value }
  | nonRecursive => some { s with nonRecursive := true }
  | includePatterns => some { s with includePatterns := values }
  | excludePatterns => some { s with excludePatterns := values }
  | includeChecks => some { s with includeChecks := values }
  | excludeChecks => some { s with excludeChecks := values }
  | fix => some { s with fix := true }
  | jobs => do return { s with jobs := ← jobs? processors value }
  | noStatistic => some { s with noStatistic := true }

def command (tree : FileTree) (processors : Nat) : Command LintOption LintSettings where
  forms := forms
  start := { jobs := (processors / 2 : Nat) }
  take := take tree processors
  exclusive := [[directories, files, fileList], [includeChecks, excludeChecks]]

end LintOption

namespace LintSettings

def searches (s : LintSettings) : Bool :=
  s.full || s.directories.any fun ds => !ds.isEmpty

/-- What speaks against the settings: options for the search without a search. -/
def complaint? (s : LintSettings) : Option Line :=
  let given (patterns : Option (List String)) := patterns.any fun ps => !ps.isEmpty
  if s.searches then none
  else if given s.includePatterns || given s.excludePatterns then
    some ⟨.warning, 0, "The arguments '--include-patterns' and '--exclude-patterns' " ++
      "must be used with '-f/--full' or '-d'/'--dirs'"⟩
  else if s.nonRecursive then
    some ⟨.warning, 0, "'Argument '--non-recursive' is only usable with " ++
      "'-f'/'--full' or '-d'/'--dirs'"⟩
  else none

/-- Reads the settings from a command line, or tells what is shown and with which code the session
exits. -/
def read (tree : FileTree) (processors : Nat) (words : List String) :
    Except (List Line × Nat) LintSettings :=
  if words.isEmpty then .error ([], 1)
  else
    match (LintOption.command tree processors).read words with
    | .error r => .error ([], r.exitCode)
    | .ok s =>
      match s.complaint? with
      | some line => .error ([line], 1)
      | none => .ok s

/-- What the search for files shows, and the files that were found. The search of everything starts
in the current directory. -/
def findFiles (s : LintSettings) (tree : FileTree) : List Line × Except Ending (List Path) :=
  let everything := Path.absoluteOf tree.here
  let notice := if s.full then [⟨.info, 0, s!"Running full lint from {everything}"⟩] else []
  if s.searches then
    let directories := if s.full then [everything] else s.directories.getD []
    let patterns := Discovery.patterns s.includePatterns s.excludePatterns (!s.nonRecursive)
    (notice ++ Discovery.recursionNotice (!s.nonRecursive),
      (Discovery.files tree directories patterns).mapError fun e => .failed (.pattern e))
  else
    match s.fileList with
    | some list =>
      match Discovery.listed tree list with
      | .ok files => ([], .ok files)
      | .error .missing => ([Discovery.missingList list], .error (.exit 1))
      | .error e => ([], .error (.failed (.access e)))
    | none => ([], .ok (s.files.getD []))

def runOptions (s : LintSettings) (here : Location) (first : Path) (interruptAt : Option Int) :
    RunOptions :=
  { report :=
      { root := s.root.getD (first.rootOf here)
        fix := s.fix
        logFile := s.logFile
        statisticLogFile := s.statisticLogFile
        statistic := !s.noStatistic
        verbosity := s.verbosity
        ignoreWarnings := s.ignoreWarnings }
    excluded := s.excludeChecks.map .listed
    included := s.includeChecks.map .listed
    interruptAt }

end LintSettings

/-! ## Sessions -/

def version : String := "22.8.6.dev1"

/-- Examines files, each of them once, and tells how that ended. -/
def lintFiles (s : LintSettings) (files : List Path) (w : Surroundings) (interruptAt : Option Int)
    (state : ReportState) : ReportState × Ending :=
  match w.arrangement.arrange files.eraseDups with
  | [] => (state.tell [⟨.warning, 0, "No files given/found."⟩], .exit 1)
  | first :: more =>
    let files := first :: more
    let count := files.length
    let o := s.runOptions w.tree.here first interruptAt
    let state := state.tell [⟨.info, 0, s!"Start linting {count} files ... "⟩]
    if s.jobs < 1 then
      let (state, fault) := Run.announce o state
      (state, .failed (fault.getD .noWorkers))
    else
      match run o files w state with
      | (state, .error f) => (state, .failed f)
      | (state, .ok clean) => (state, if clean then .returned else .exit 1)

/-- A session of the linter with a command line. -/
def lint (processors : Nat) (words : List String) (w : Surroundings) (interruptAt : Option Int) :
    ReportState × Ending :=
  let state : ReportState := { tree := w.tree }
  match LintSettings.read w.tree processors words with
  | .error (lines, code) => (state.tell lines, .exit code)
  | .ok s =>
    if s.version then (state.tell [⟨.info, 0, s!"troubadix version {version}"⟩], .exit 1)
    else
      match s.findFiles w.tree with
      | (lines, .error ending) => (state.tell lines, ending)
      | (lines, .ok files) => lintFiles s files w interruptAt (state.tell lines)

end NaslLint

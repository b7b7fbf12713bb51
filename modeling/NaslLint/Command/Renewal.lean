import NaslLint.Checks.Dates
import NaslLint.Command.Lint

/-!
# Renewing dates

A command that sets the version and the last modification of scripts to the present time.
-/

namespace NaslLint

inductive RenewalOption where
  | files
  | fileList
deriving DecidableEq, Repr

/-- The files to renew, or a file that lists them. -/
structure RenewalSettings where
  files : List Path := []
  fileList : Option Path := none

namespace Renewal

def existingFile? (tree : FileTree) (s : String) : Option Path :=
  let p := Path.ofString s
  if tree.isFile p then some p else none

def command (tree : FileTree) : Command RenewalOption RenewalSettings where
  forms :=
    [.help, ⟨["--files"], .several, some .files⟩, ⟨["--from-file"], .one, some .fileList⟩]
  start := {}
  take o values s :=
    match o with
    | .files => do return { s with files := ← values.mapM (existingFile? tree) }
    | .fileList => do return { s with fileList := ← existingFile? tree (values.headD "") }
  exclusive := [[.files, .fileList]]
  required := [[.files, .fileList]]

inductive Lack where
  | lastModification
  | version
deriving DecidableEq, Repr

/-- The text of a script with its dates set to a time. Every call that is written as the first one
of its kind is replaced. -/
def renew (now : DateTime) (t : List Char) : Except Lack (List Char) :=
  match Script.anyLastModification.find? t with
  | none => .error .lastModification
  | some modified =>
    let t := Text.replaceAll modified.text (Checks.lastModificationTag now) t
    match Script.anyVersion.find? t with
    | none => .error .version
    | some version => .ok (Text.replaceAll version.text (Checks.versionCall now) t)

def ignored (file : Path) (lack : Lack) : Line :=
  let what :=
    match lack with
    | .lastModification => "last_modification tag"
    | .version => "script_version"
  ⟨.warning, 0, s!"Ignoring \"{file}\" because it is missing a {what}."⟩

def renewFile (now : DateTime) (file : Path) (s : ReportState) : ReportState × Option Fault :=
  if file.suffix != ".nasl" then
    (s.tell [⟨.warning, 0, s!"Skipping \"{file}\". Not a nasl file."⟩], none)
  else
    let s := s.tell [⟨.info, 0, s!"Updating \"{file}\""⟩]
    match s.tree.readText file with
    | .error e => (s, some (.access e))
    | .ok t =>
      match renew now t with
      | .error lack => (s.tell [ignored file lack], none)
      | .ok renewed =>
        match s.tree.write file (Text.toLatin1 renewed) with
        | .error e => (s, some (.access e))
        | .ok tree => ({ s with tree }, none)

/-- Renews files one after the other until one fails. -/
def renewAll (now : DateTime) : List Path → ReportState → ReportState × Ending
  | [], s => (s, .exit 0)
  | file :: more, s =>
    match renewFile now file s with
    | (s, none) => renewAll now more s
    | (s, some f) => (s, .failed f)

end Renewal

def renewDates (words : List String) (now : DateTime) (tree : FileTree) : ReportState × Ending :=
  let s : ReportState := { tree }
  match (Renewal.command tree).read words with
  | .error r => (s, .exit r.exitCode)
  | .ok settings =>
    match settings.fileList with
    | none => Renewal.renewAll now settings.files s
    | some list =>
      match Discovery.listed tree list with
      | .ok files => Renewal.renewAll now files s
      | .error .missing => (s.tell [Discovery.missingList list], .exit 1)
      | .error e => (s, .failed (.access e))

end NaslLint

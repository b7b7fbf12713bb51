import NaslLint.Command.Lint
import NaslLint.Script.Url
import Std.Time.Zoned

/-!
# The command line program

The program reads everything below the current directory into a file tree, holds a session of the
linter over it, shows the lines of the session and stores the files that the session has changed.
Paths are taken from the current directory. Spelling is not checked.
-/

namespace NaslLint

def LineKind.sign : LineKind → String
  | .plain => ""
  | .ok => "✓ "
  | .error => "× "
  | .warning => "⚠ "
  | .info | .heading => "ℹ "

def Line.shown (l : Line) : String :=
  l.kind.sign ++ "".pushn ' ' l.indent ++ l.message

def usage : String :=
  "Options:\n" ++ "".intercalate (LintOption.forms.map fun f =>
    "  " ++ ", ".intercalate f.names ++ "\n")

/-- The encoding of bytes: the narrowest of three in which they are text. -/
def encodingOf (bytes : Bytes) : Option String :=
  if bytes.all (· < 128) then some "ascii"
  else if (Text.ofUtf8? bytes).isSome then some "utf-8"
  else some "ISO-8859-1"

def Fault.shown : Fault → String
  | .access .missing => "A file is missing."
  | .access .isDirectory => "A directory stands where a file is needed."
  | .access .notDirectory => "A file stands where a directory is needed."
  | .access .notUtf8 => "A file is not stored as UTF-8."
  | .outsideRoot => "A file lies outside of the root directory."
  | .numberTooLong => "A number has too many digits."
  | .namelessDependency => "A dependency has no name."
  | .undeterminedCategory => "The category of a dependency is unknown."
  | .nothingPrepared => "A check cannot repair a file it has not looked at."
  | .noChecks => "No check is selected."
  | .noWorkers => "There is no one to do the work."
  | .pattern _ => "A text that should be a file pattern is none."
  | .history => "The version control system has failed."

/-- Reads the entries of a directory and everything below them. Links are left out. -/
partial def loadEntries (here : Location) (entries : Array IO.FS.DirEntry) (tree : FileTree) :
    IO FileTree :=
  entries.foldlM (fun tree e => do
    let there := here ++ [e.fileName]
    match (← e.path.symlinkMetadata).type with
    | .dir => loadEntries there (← e.path.readDir) (tree.addDirectory there)
    | .file => return tree.addFile there (← IO.FS.readBinFile e.path).toList
    | _ => return tree) tree

def presentTime : IO DateTime := do
  let now := (Std.Time.DateTime.ofTimestampWithZone (← Std.Time.Timestamp.now)
    Std.Time.TimeZone.UTC).toPlainDateTime
  let (day, time) := (now.date, now.time)
  return { year := day.year.toNat, month := day.month.val.toNat, day := day.day.val.toNat
           hour := time.hour.val.toNat, minute := time.minute.val.toNat
           second := time.second.val.toNat }

end NaslLint

open NaslLint

/-- Holds a session with the given words. -/
def main (words : List String) : IO UInt32 := do
  let here ← IO.currentDir
  let tree ← loadEntries [] (← here.readDir) FileTree.empty
  let processors := 2
  match (LintOption.command tree processors).read words with
  | .error .help => IO.print usage
  | .error .misuse => IO.eprint usage
  | .ok _ => if words.isEmpty then IO.print usage
  let w : Surroundings :=
    { tree, now := ← presentTime, detectEncoding := encodingOf, isUrl := Url.isValid }
  let (state, ending) := lint processors words w none
  for line in state.terminal do
    IO.println line.shown
  for (location, bytes) in tree.changes state.tree do
    IO.FS.writeBinFile (location.foldl (fun d (name : String) => d / name) here) (ByteArray.mk bytes.toArray)
  if let .failed f := ending then
    IO.eprintln f.shown
  return ending.status.toUInt32

import NaslLint.Check
import NaslLint.Checks.Oid

/-!
# Object identifiers used twice
-/

namespace NaslLint.Checks.DuplicateOid

open Pattern

/-- An identifier below the numbers that all identifiers share, with a branch and further
numbers. -/
def wellFormed : Pattern :=
  .chain [.textStart, oidStem, .run .longest 1 none Text.isAsciiDigit, ".",
    .run .longest 1 none (fun c => Text.isDigit c || c == '.'), .textEnd]

def name : String :=
  "check_duplicate_oid"

def complain (file : Path) (message : String) : Finding :=
  { severity := .error, message, file := some file.toString, check := some name }

/-- What is found about one file, given the identifiers seen before it with the files that used them
first, and the identifiers seen after it. -/
def judge (seen : List (List Char × Path)) (file relative : Path) (t : List Char) :
    Option Finding × List (List Char × Path) :=
  match oid? t with
  | none => (some (complain file s!"Could not find an OID in '{relative}'."), seen)
  | some oid =>
    let shown := String.ofList oid
    if (wellFormed.matchStart? oid).isNone then
      (some (complain file s!"Invalid OID {shown} found in '{relative}'."), seen)
    else
      match seen.lookup oid with
      | none => (none, seen ++ [(oid, relative)])
      | some first => (some (complain file s!"OID {shown} already used by '{first}'"), seen)

def judgeAll (tree : FileTree) (root : Path) :
    List (List Char × Path) → List Path → Outcome Finding
  | _, [] => .done []
  | seen, file :: more =>
    if file.suffix != ".nasl" then judgeAll tree root seen more
    else
      match file.fromRoot? root tree.here with
      | none => .fail .outsideRoot
      | some relative =>
        match tree.readText file with
        | .error e => .fail (.access e)
        | .ok t =>
          let (finding?, seen) := judge seen file relative t
          .following finding?.toList (judgeAll tree root seen more)

end DuplicateOid

/-- Reports scripts that share an object identifier, and scripts without a proper one. -/
def duplicateOid : FeedCheck where
  name := DuplicateOid.name
  title := "CheckDuplicateOID"
  run feed w := DuplicateOid.judgeAll w.tree feed.root [] feed.files

end NaslLint.Checks

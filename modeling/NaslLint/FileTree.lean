import NaslLint.Path
import NaslLint.Text.Encoding
import NaslLint.Text.Lines

/-!
# File trees

A file tree lists its files and directories by their names from the root. Every directory on the
way to an entry is an entry itself; the root directory always exists and is not listed. One stands
in a directory of the tree, from which relative paths are taken.

* `FileTree.locate` follows a path, `..` included, through existing directories.
* `FileTree.readBytes` and `FileTree.readText` read files; `FileTree.write` changes one.
-/

namespace NaslLint

inductive Entry where
  | directory (mode : Nat)
  | file (mode : Nat) (bytes : Bytes)
deriving DecidableEq, Repr

namespace Entry

def isDirectory : Entry → Bool
  | .directory _ => true
  | .file _ _ => false

def mode : Entry → Nat
  | .directory m => m
  | .file m _ => m

end Entry

/-- The names that lead from the root to an entry. -/
abbrev Location := List String

/-- A tree of files and directories, seen from the directory `here`. -/
structure FileTree where
  entries : List (Location × Entry)
  here : Location := []
deriving Repr, Inhabited

inductive AccessError where
  | missing
  | isDirectory
  | notDirectory
  | notUtf8
deriving DecidableEq, Repr

namespace FileTree

def empty : FileTree :=
  { entries := [] }

def entry? (t : FileTree) (l : Location) : Option Entry :=
  if l.isEmpty then some (.directory 0o755) else t.entries.lookup l

def hasDirectory (t : FileTree) (l : Location) : Bool :=
  (t.entry? l).any Entry.isDirectory

/-- Follows names from a location. Every step starts in a directory and ends at an entry. -/
def follow (t : FileTree) : Location → List String → Except AccessError Location
  | here, [] => .ok here
  | here, n :: more =>
    if t.hasDirectory here then
      if n == ".." then t.follow here.dropLast more
      else
        let there := here ++ [n]
        if (t.entry? there).isSome then t.follow there more else .error .missing
    else .error .notDirectory

def locate (t : FileTree) (p : Path) : Except AccessError Location :=
  t.follow [] (p.absolute t.here).names

def at? (t : FileTree) (p : Path) : Option Entry :=
  (t.locate p).toOption.bind t.entry?

def exists? (t : FileTree) (p : Path) : Bool :=
  (t.at? p).isSome

def isDirectory (t : FileTree) (p : Path) : Bool :=
  (t.at? p).any Entry.isDirectory

def isFile (t : FileTree) (p : Path) : Bool :=
  (t.at? p).any fun e => !e.isDirectory

def readBytes (t : FileTree) (p : Path) : Except AccessError Bytes := do
  match t.entry? (← t.locate p) with
  | none => .error .missing
  | some (.directory _) => .error .isDirectory
  | some (.file _ bytes) => .ok bytes

/-- The text of a script, with its line ends unified. -/
def readText (t : FileTree) (p : Path) : Except AccessError (List Char) :=
  (t.readBytes p).map fun bytes => Text.unifyNewlines (Text.ofLatin1 bytes)

def readUtf8 (t : FileTree) (p : Path) : Except AccessError (List Char) := do
  match Text.ofUtf8? (← t.readBytes p) with
  | none => .error .notUtf8
  | some text => .ok (Text.unifyNewlines text)

/-- The tree with an entry set, in place if the location has one. -/
def setEntry (t : FileTree) (l : Location) (e : Entry) : FileTree :=
  if (t.entries.lookup l).isSome then
    { t with entries := t.entries.map fun (k, old) => if k == l then (k, e) else (k, old) }
  else { t with entries := t.entries ++ [(l, e)] }

/-- The tree with a directory and all directories on the way to it. -/
def addDirectory (t : FileTree) (l : Location) : FileTree :=
  (List.range l.length).foldl (fun t i =>
    let d := l.take (i + 1)
    if (t.entry? d).isSome then t else t.setEntry d (.directory 0o755)) t

def addFile (t : FileTree) (l : Location) (bytes : Bytes) : FileTree :=
  (t.addDirectory l.dropLast).setEntry l (.file 0o644 bytes)

def setMode (t : FileTree) (p : Path) (mode : Nat) : FileTree :=
  match t.locate p with
  | .error _ => t
  | .ok l =>
    match t.entry? l with
    | none => t
    | some (.directory _) => t.setEntry l (.directory mode)
    | some (.file _ bytes) => t.setEntry l (.file mode bytes)

/-- Writes a file, which is created in an existing directory if it is missing. -/
def write (t : FileTree) (p : Path) (bytes : Bytes) : Except AccessError FileTree :=
  match t.locate p with
  | .ok l =>
    match t.entry? l with
    | some (.file mode _) => .ok (t.setEntry l (.file mode bytes))
    | _ => .error .isDirectory
  | .error .missing => do
    let d ← t.locate p.parent
    .ok (t.setEntry (d ++ [p.name]) (.file 0o644 bytes))
  | .error e => .error e

def append (t : FileTree) (p : Path) (bytes : Bytes) : Except AccessError FileTree :=
  match t.readBytes p with
  | .ok old => t.write p (old ++ bytes)
  | .error .missing => t.write p bytes
  | .error e => .error e

/-- The names of the entries directly in a directory. -/
def children (t : FileTree) (l : Location) : List String :=
  t.entries.filterMap fun (k, _) => if k.dropLast == l && !k.isEmpty then k.getLast? else none

/-- The directories at and below a directory, by their names from it. -/
def directoriesBelow (t : FileTree) (l : Location) : List (List String) :=
  [] :: t.entries.filterMap fun (k, e) =>
    if e.isDirectory && l.isPrefixOf k && k.length > l.length then some (k.drop l.length) else none

/-- The files of `after` that are new or changed since `before`. -/
def changes (before after : FileTree) : List (Location × Bytes) :=
  after.entries.filterMap fun (l, e) =>
    match e, before.entry? l with
    | .file _ bytes, some (.file _ old) => if bytes == old then none else some (l, bytes)
    | .file _ bytes, _ => some (l, bytes)
    | .directory _, _ => none

end FileTree

end NaslLint

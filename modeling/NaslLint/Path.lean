import NaslLint.Text.Find

/-!
# File paths

A path is an anchor and a list of names. Doubled slashes, `.` components and a trailing slash do not
belong to it; `..` components do. A relative path is taken from a directory, whose names have to be
given to make it absolute.
-/

namespace NaslLint

/-- A file path. The anchor is empty for a relative path; two leading slashes are an anchor of
their own. -/
structure Path where
  anchor : String
  names : List String
deriving DecidableEq, Repr, Inhabited

namespace Path

def anchorOf : List Char → String
  | '/' :: '/' :: '/' :: _ => "/"
  | '/' :: '/' :: _ => "//"
  | '/' :: _ => "/"
  | _ => ""

def ofChars (t : List Char) : Path :=
  { anchor := anchorOf t
    names := ((Text.splitOn '/' t).map String.ofList).filter fun n => n != "" && n != "." }

def ofString (s : String) : Path :=
  ofChars s.toList

def absoluteOf (names : List String) : Path :=
  ⟨"/", names⟩

/-- The path as text. The empty relative path is written as a dot. -/
def toString (p : Path) : String :=
  if p.anchor == "" && p.names.isEmpty then "."
  else p.anchor ++ "/".intercalate p.names

instance : ToString Path := ⟨toString⟩

def isAbsolute (p : Path) : Bool :=
  p.anchor != ""

/-- The path `q` seen from `p`: an absolute `q` stands for itself. -/
def join (p q : Path) : Path :=
  if q.isAbsolute then q else { p with names := p.names ++ q.names }

instance : HDiv Path Path Path := ⟨join⟩

instance : HDiv Path String Path := ⟨fun p s => p.join (ofString s)⟩

/-- The components of a path, an anchor counting as one. -/
def parts (p : Path) : List String :=
  if p.isAbsolute then p.anchor :: p.names else p.names

/-- The last name, empty if there is none. -/
def name (p : Path) : String :=
  p.names.getLastD ""

def parent (p : Path) : Path :=
  { p with names := p.names.dropLast }

/-- The ancestors of a path, the nearest first. -/
def parents (p : Path) : List Path :=
  (List.range p.names.length).map fun i => { p with names := p.names.take (p.names.length - 1 - i) }

/-- The suffix of a name: from its last dot on, unless that dot is the first or last character. -/
def suffixOf (name : String) : String :=
  let t := name.toList
  let ending := (t.reverse.takeWhile (· != '.')).reverse
  if ending.length + 1 < t.length && !ending.isEmpty then String.ofList ('.' :: ending) else ""

def suffix (p : Path) : String :=
  suffixOf p.name

def isInclude (p : Path) : Bool :=
  p.suffix == ".inc"

/-- Names without `..`: each one takes away the name before it. -/
def normalize (names : List String) : List String :=
  (names.foldl (fun acc n => if n == ".." then acc.tail else n :: acc) []).reverse

/-- The path from the root of the tree, `..` kept, of what is seen from the directory `here`. -/
def absolute (p : Path) (here : List String) : Path :=
  if p.isAbsolute then p else absoluteOf (here ++ p.names)

/-- The path from the root of the tree, without `..`. -/
def resolve (p : Path) (here : List String) : Path :=
  absoluteOf (normalize (p.absolute here).names)

/-- What remains of `p` below `base`, if `p` starts with `base`. -/
def relativeTo? (p base : Path) : Option Path :=
  if p.anchor == base.anchor && base.names.isPrefixOf p.names then
    some ⟨"", p.names.drop base.names.length⟩
  else none

def fromRoot? (file root : Path) (here : List String) : Option Path :=
  (file.resolve here).relativeTo? (root.absolute here)

/-- The names of the directories that hold all scripts: the nearest such ancestor of a file is its
root, or else the root of the tree. -/
def rootOf (file : Path) (here : List String) : Path :=
  let p := file.resolve here
  (p.parents.find? fun d => d.name == "" || d.name == "nasl").getD p

end Path

end NaslLint

import NaslLint.FileTree

/-!
# File patterns

A file pattern is a path whose names may hold wildcards: `*` stands for any text, `?` for one
character and `[...]` for one character of a set. The name `**` stands for any chain of directories.
A pattern selects the entries below a directory that its names lead to.

* `Glob.ofString` reads a pattern, or says why there is none.
* `Glob.select` lists the entries that a pattern selects.
-/

namespace NaslLint

/-! ## Names with wildcards -/

/-- A set of characters, given by the ranges it consists of or by those it leaves out. -/
structure CharSet where
  negated : Bool
  ranges : List (Char × Char)
deriving DecidableEq, Repr

namespace CharSet

def any : CharSet :=
  { negated := true, ranges := [] }

def only (c : Char) : CharSet :=
  { negated := false, ranges := [(c, c)] }

def holds (s : CharSet) (c : Char) : Bool :=
  (s.ranges.any fun (lo, hi) => lo ≤ c && c ≤ hi) != s.negated

/-- The ranges that a text denotes: three characters with a hyphen between them are a range, any
other character stands for itself. -/
def readRanges : List Char → List (Char × Char)
  | lo :: '-' :: hi :: more => (lo, hi) :: readRanges more
  | c :: more => (c, c) :: readRanges more
  | [] => []

/-- The set that the text between brackets denotes. A leading exclamation mark negates it; so does
one that comes first when the empty ranges are taken out. -/
def ofBrackets (t : List Char) : CharSet :=
  let full (t : List Char) := (readRanges t).filter fun (lo, hi) => lo ≤ hi
  match t with
  | '!' :: more => { negated := true, ranges := full more }
  | _ =>
    match full t with
    | ('!', hi) :: more =>
      { negated := true, ranges := if hi == '!' then more else ('-', '-') :: (hi, hi) :: more }
    | ranges => { negated := false, ranges }

end CharSet

inductive NamePart where
  | star
  | one (s : CharSet)
deriving DecidableEq, Repr

namespace NamePart

/-- Splits text behind an opening bracket at the bracket that closes it. One that stands first, or
first behind an exclamation mark, does not close it. -/
def splitBrackets? (t : List Char) : Option (List Char × List Char) :=
  let skip (c : Char) (t : List Char) : Nat := if t.head? == some c then 1 else 0
  let marks := skip '!' t
  let start := marks + skip ']' (t.drop marks)
  match (t.drop start).dropWhile (· != ']') with
  | [] => none
  | _ :: after => some (t.take start ++ (t.drop start).takeWhile (· != ']'), after)

/-- The parts of a name. Characters that belong to a set already read are skipped: there are
`inside` of them. A bracket that is not closed stands for itself. -/
def readFrom : Nat → List Char → List NamePart
  | _, [] => []
  | n + 1, _ :: more => readFrom n more
  | 0, '*' :: more => .star :: readFrom 0 more
  | 0, '?' :: more => .one .any :: readFrom 0 more
  | 0, '[' :: more =>
    match splitBrackets? more with
    | some (set, _) => .one (.ofBrackets set) :: readFrom (set.length + 1) more
    | none => .one (.only '[') :: readFrom 0 more
  | 0, c :: more => .one (.only c) :: readFrom 0 more

def read (t : List Char) : List NamePart :=
  readFrom 0 t

/-- Whether some ending of a text, the text itself and the empty one included, has a property. -/
def anyEnding (holds : List Char → Bool) : List Char → Bool
  | [] => holds []
  | c :: more => holds (c :: more) || anyEnding holds more

def fit : List NamePart → List Char → Bool
  | [], t => t.isEmpty
  | .star :: more, t => anyEnding (fit more) t
  | .one _ :: _, [] => false
  | .one s :: more, c :: rest => s.holds c && fit more rest

end NamePart

/-! ## Patterns -/

inductive GlobStep where
  /-- Any directory at or below the present one. -/
  | below
  /-- The directory above. -/
  | above
  /-- An entry whose name is made up of the given parts. -/
  | entry (name : List NamePart)
deriving DecidableEq, Repr

/-- A file pattern. If it ends in a slash it selects directories only. -/
structure Glob where
  steps : List GlobStep
  directoriesOnly : Bool
deriving DecidableEq, Repr

inductive GlobError where
  | empty
  | absolute
  /-- Two stars stand in a name that holds more. -/
  | joinedStars
  /-- The pattern has no name, with or without a slash at its end. -/
  | noName (slash : Bool)
deriving DecidableEq, Repr

namespace Glob

def readStep (name : List Char) : Except GlobError GlobStep :=
  if name == ['*', '*'] then .ok .below
  else if name == ['.', '.'] then .ok .above
  else if Text.contains ['*', '*'] name then .error .joinedStars
  else .ok (.entry (NamePart.read name))

def ofString (s : String) : Except GlobError Glob := do
  let path := Path.ofString s
  let slash := s.toList.getLast? == some '/'
  if s.isEmpty then .error .empty
  else if path.isAbsolute then .error .absolute
  else if path.names.isEmpty then .error (.noName slash)
  else return { steps := ← path.names.mapM fun n => readStep n.toList, directoriesOnly := slash }

def selectFrom (tree : FileTree) (directoriesOnly : Bool) : List GlobStep → Path → List Path
  | [], here => [here]
  | .below :: more, here =>
    match tree.locate here with
    | .error _ => []
    | .ok l =>
      ((tree.directoriesBelow l).flatMap fun names =>
        selectFrom tree directoriesOnly more { here with names := here.names ++ names }).eraseDups
  | .above :: more, here =>
    selectFrom tree directoriesOnly more { here with names := here.names ++ [".."] }
  | .entry name :: more, here =>
    match tree.locate here with
    | .error _ => []
    | .ok l =>
      ((tree.children l).filter fun n =>
        NamePart.fit name n.toList &&
          ((more.isEmpty && !directoriesOnly) || tree.hasDirectory (l ++ [n]))).flatMap fun n =>
        selectFrom tree directoriesOnly more { here with names := here.names ++ [n] }

/-- The entries that a pattern selects below a directory. -/
def select (g : Glob) (tree : FileTree) (directory : Path) : List Path :=
  if tree.isDirectory directory then selectFrom tree g.directoriesOnly g.steps directory else []

end Glob

end NaslLint

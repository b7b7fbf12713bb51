import NaslLint.Check
import NaslLint.Script.Tag

/-!
# Dependencies between scripts

A script lists the scripts that have to run before it. Three checks look at that list: whether the
listed scripts exist and where, whether they run in time, and whether they are still in use.
-/

namespace NaslLint.Checks

open Pattern

/-- Directories of the feed in which a script may stand, relative to the root. -/
def feedDirectories : List String :=
  ["common", "21.04", "22.04", ""]

/-- Directories whose scripts are not part of the public feed. -/
def enterpriseFolders : List String :=
  ["enterprise", "gsf"]

def isEnterpriseFolder (folder : String) : Bool :=
  enterpriseFolders.contains folder

/-- The names in the value of a `script_dependencies` call: quotes and blanks do not count and commas
divide them. -/
def dependencyNames (value : List Char) : List String :=
  (Text.splitOn ',' (value.filter fun c => !(c == '\'' || c == '"' || Text.isBlank c))).map
    String.ofList

/-- All dependencies a script lists, in order. Names that a loop in the script puts together are
left out. -/
def dependencies (t : List Char) : List String :=
  ((Call.dependencies.pattern.findAll t).flatMap fun m => dependencyNames (m.group "value")).filter
    fun d => !Text.occursIn "+d+.nasl" d

def dependencyPlaces (root : Path) (dep : String) : List Path :=
  feedDirectories.map fun dir => root / dir / dep

def dependencyExists (tree : FileTree) (root : Path) (dep : String) : Bool :=
  (dependencyPlaces root dep).any tree.exists?

/-- The last of the places at which a dependency exists. -/
def dependencyPath? (tree : FileTree) (root : Path) (dep : String) : Option Path :=
  ((dependencyPlaces root dep).filter tree.exists?).getLast?

def missingDependency (dep : String) : Remark :=
  .error s!"The script dependency {dep} could not be found within the VTs."

/-! ## Existence and place -/

def toleratedFolders : List String :=
  ["PCIDSS", "Policy", "GSHB"]

/-- The remark on the directories that a dependency names. An enterprise directory in front does not
count. -/
def folderRemark? (dep : String) (parts : List String) : Option Remark :=
  match parts with
  | [] | [_] => none
  | folder :: _ :: _ =>
    if toleratedFolders.contains folder then
      some (.warning
        s!"The script dependency {dep} is in a subdirectory, which might be misplaced.")
    else
      some (.error
        s!"The script dependency {dep} is within a subdirectory, which is not allowed.")

def judgePlace (tree : FileTree) (root : Path) (dep : String) : Outcome Remark :=
  if !dependencyExists tree root dep then .done [missingDependency dep]
  else
    match (Path.ofString dep).parts with
    | [] => .fail .namelessDependency
    | first :: more =>
      let parts := if isEnterpriseFolder first then more else first :: more
      .done (folderRemark? dep parts).toList

def dependencyPlacement : FileCheck where
  name := "check_dependencies"
  title := "CheckDependencies"
  run s w := s.unlessInclude <| s.withText fun t =>
    .forEach (dependencies t) (judgePlace w.tree s.root)

/-! ## Category -/

def readCategory (t : List Char) : Except CategoryFault Category :=
  match Call.category.pattern.find? t with
  | none => .error .missing
  | some m =>
    let name := String.ofList (m.group "value")
    match Category.ofName? name with
    | none => .error (.unknown name)
    | some c => .ok c

def category? (t : List Char) : Option Category :=
  (readCategory t).toOption

def missingCategory (script : String) : String :=
  s!"{script}: Script category is missing or unsupported."

def showCategory (c : Category) : String :=
  let name := c.name
  let number := c.number
  s!"{name}({number})"

def orderRemarks (own : Category) (dep : String) (theirs : Category) : List Remark :=
  let shown := showCategory theirs
  (if own.number < theirs.number then
    let mine := showCategory own
    [.error (s!"Script category {mine} is lower than the category {shown} of the " ++
      s!"dependency {dep}.")]
  else []) ++
  (if theirs = .scanner ∧ dep ≠ "host_alive_detection.nasl" then
    [.error (s!"Script depends on {dep} which has the category {shown}, but no VT" ++
      " is allowed to have a direct dependency to VTs in this category.")]
  else [])

/-- Judges the category of a dependency and goes on with the category determined last. A dependency
without a category is judged by that one. -/
def judgeNext (tree : FileTree) (root : Path) (own : Category) (last : Option Category)
    (dep : String) (others : Option Category → Outcome Remark) : Outcome Remark :=
  match dependencyPath? tree root dep with
  | none => .following [missingDependency dep] (others last)
  | some path =>
    match tree.readText path with
    | .error e => .fail (.access e)
    | .ok text =>
      match category? text, last with
      | some theirs, _ => .following (orderRemarks own dep theirs) (others (some theirs))
      | none, some theirs =>
        .following (.error (missingCategory path.name) :: orderRemarks own dep theirs) (others last)
      | none, none =>
        .following [.error (missingCategory path.name)] (.fail .undeterminedCategory)

def judgeOrder (tree : FileTree) (root : Path) (own : Category) :
    Option Category → List String → Outcome Remark
  | _, [] => .done []
  | last, dep :: more =>
    judgeNext tree root own last dep fun last => judgeOrder tree root own last more

/-- Checks that no dependency runs later than the script itself. -/
def dependencyOrder : FileCheck where
  name := "check_dependency_category_order"
  title := "CheckDependencyCategoryOrder"
  run s w := s.withText fun t =>
    if !Text.contains "script_dependencies(".toList t then .done []
    else
      match category? t with
      | none => .done [.error (missingCategory s.file.name)]
      | some own => judgeOrder w.tree s.root own none (dependencies t)

/-! ## Deprecation -/

def deprecationMark : Pattern :=
  .oneOf
    [.chain [.lineStart, .blanks, "exit", .blanks, "(", .blanks, "66", .blanks, ")", .blanks, ";"],
     .chain ["script_tag", .blanks, "(", Script.label "name", .group "quote" Script.quoteChar,
       "deprecated", .again "quote", .blanks, ",", Script.label "value", "TRUE", Script.callEnd]]

def judgeUse (tree : FileTree) (root : Path) (dep : String) : Outcome Remark :=
  match dependencyPath? tree root dep with
  | none => .done [missingDependency dep]
  | some path =>
    match tree.readText path with
    | .error e => .fail (.access e)
    | .ok text =>
      if deprecationMark.occursIn text then
        .done [.error s!"VT depends on {dep}, which is marked as deprecated."]
      else .done []

/-- Checks that a script in use does not depend on one that is not. -/
def dependencyUse : FileCheck where
  name := "check_deprecated_dependency"
  title := "CheckDeprecatedDependency"
  run s w := s.unlessInclude <| s.withText fun t =>
    if !Text.contains "script_dependencies(".toList t || deprecationMark.occursIn t then .done []
    else .forEach (dependencies t) (judgeUse w.tree s.root)

end NaslLint.Checks

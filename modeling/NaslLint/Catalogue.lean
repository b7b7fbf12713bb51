import NaslLint.Checks.Calls
import NaslLint.Checks.Conditions
import NaslLint.Checks.Copyright
import NaslLint.Checks.Dates
import NaslLint.Checks.Dependencies
import NaslLint.Checks.DuplicateOid
import NaslLint.Checks.Grammar
import NaslLint.Checks.Layout
import NaslLint.Checks.Messages
import NaslLint.Checks.NoSolution
import NaslLint.Checks.Oid
import NaslLint.Checks.Placement
import NaslLint.Checks.Prose
import NaslLint.Checks.References
import NaslLint.Checks.Severity
import NaslLint.Checks.Solution
import NaslLint.Checks.Spelling
import NaslLint.Checks.Tags

/-!
# The catalogue of checks

All checks in the order in which they run, and the selection of some of them.
-/

namespace NaslLint

/-- The checks of single files, in the order in which they run. -/
def fileChecks : List FileCheck :=
  [Checks.badwords, Checks.copyrightText, Checks.copyrightYear, Checks.creationDate,
   Checks.cveFormat, Checks.cvssFormat, Checks.dependencyPlacement, Checks.dependencyOrder,
   Checks.dependencyUse, Checks.deprecatedFunctions, Checks.description, Checks.doubledEnds,
   Checks.repeatedTags, Checks.encoding, Checks.forkingCalls,
   Checks.serviceKeys, Checks.grammar, Checks.linksInTags, Checks.illegalCharacters,
   Checks.logMessages, Checks.misplacedCompares, Checks.descriptionExit,
   Checks.solutionTagPresence, Checks.newlines, Checks.overlongValues,
   Checks.detectionWithSeverity, Checks.qod, Checks.reportingConsistency, Checks.riskFactor,
   Checks.preferenceType, Checks.emptyValues, Checks.recommendedCalls,
   Checks.scriptCategory, Checks.scriptCopyright, Checks.scriptFamily, Checks.tagForm,
   Checks.mandatoryParts, Checks.blanksAroundValues, Checks.versionAndLastModification,
   Checks.referenceForm, Checks.referenceUrls, Checks.securityMessages, Checks.solutionText,
   Checks.solutionType, Checks.tabs, Checks.openTasks, Checks.blanksAtLineEnds,
   Checks.displayCalls, Checks.validOid, Checks.tagNames, Checks.assignmentsInConditions,
   Checks.filePermissions, Checks.detectionPlacement, Checks.knowledgeBaseParameters]

def feedChecks : List FeedCheck :=
  [Checks.duplicateOid, Checks.noSolution, Checks.spelling]

/-- A choice of checks by names and titles: a list of them, or a text that contains them. -/
inductive Choice where
  | listed (names : List String)
  | mentioned (text : String)
deriving Repr

namespace Choice

def isEmpty : Choice → Bool
  | listed names => names.isEmpty
  | mentioned text => text.isEmpty

def chooses (c : Choice) (name title : String) : Bool :=
  match c with
  | listed names => names.contains title || names.contains name
  | mentioned text => Text.occursIn title text || Text.occursIn name text

/-- The names of a choice for display. A text is shown letter by letter. -/
def shown : Choice → List String
  | listed names => names
  | mentioned text => text.toList.map fun c => String.ofList [c]

end Choice

structure Selection where
  feedChecks : List FeedCheck
  fileChecks : List FileCheck

namespace Selection

def keeps (excluded included : Option Choice) (name title : String) : Bool :=
  !(excluded.any fun c => !c.isEmpty && c.chooses name title) &&
    included.all fun c => c.isEmpty || c.chooses name title

/-- The checks that remain when some are excluded and only some included. -/
def of (excluded included : Option Choice) : Selection :=
  { feedChecks := NaslLint.feedChecks.filter fun c => keeps excluded included c.name c.title
    fileChecks := NaslLint.fileChecks.filter fun c => keeps excluded included c.name c.title }

def names (s : Selection) : List String :=
  s.feedChecks.map (·.name) ++ s.fileChecks.map (·.name)

def isEmpty (s : Selection) : Bool :=
  s.feedChecks.isEmpty && s.fileChecks.isEmpty

end Selection

end NaslLint

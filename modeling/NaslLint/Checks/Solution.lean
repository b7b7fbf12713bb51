import NaslLint.Check
import NaslLint.Checks.Severity
import NaslLint.Date.Calendar
import NaslLint.Script.Tag

/-!
# Solutions

The type of solution that a script offers, the solution itself, and the wording that is prescribed
where there is none.
-/

namespace NaslLint.Checks

open Pattern

/-! ## The type -/

def solutionTypes : List String :=
  ["Workaround", "Mitigation", "VendorFix", "NoneAvailable", "WillNotFix"]

/-- A score as the check of solution types reads it. -/
def plainScore : Pattern :=
  .chain ["script_tag", .blanks, "(name", .blanks, ":", .blanks, "\"cvss_base\",", .blanks, "value:",
    .blanks, "\"", .group "score" (.chain [.run .longest 1 (some 2) Text.isDigit, ".",
      .one Text.isDigit]), "\")"]

def plainSolutionType : Pattern :=
  .chain ["script_tag", .blanks, "(name", .blanks, ":", .blanks, "\"solution_type\"", .blanks, ",",
    .blanks, "value", .blanks, ":", .blanks, "\"",
    .group "type" (.run .longest 1 none fun c => c.isAlpha || Text.isBlank c), "\"", Script.callEnd]

def plainlyWithoutSeverity (t : List Char) : Bool :=
  (plainScore.find? t).any fun m => m.group "score" == "0.0".toList

/-- Checks that a script with a severity has a type of solution, and that the type exists. -/
def solutionType : FileCheck where
  name := "check_solution_type"
  title := "CheckSolutionType"
  run s _ := s.onScript fun t =>
    match plainSolutionType.find? t with
    | none =>
      if plainlyWithoutSeverity t then [] else [.error "VT does not contain a solution_type"]
    | some m =>
      if solutionTypes.contains (String.ofList (m.group "type")) then []
      else [.error "VT does not contain a valid solution_type 'value'"]

/-! ## The solution -/

/-- Reports scripts with a type of solution and no solution. -/
def solutionTagPresence : FileCheck where
  name := "check_missing_tag_solution"
  title := "CheckMissingTagSolution"
  run s _ := s.onScript fun t =>
    if s.isAmong ["nmap_nse/"] || Tag.deprecated.pattern.occursIn t ||
        !Tag.solutionType.pattern.occursIn t || Tag.solution.pattern.occursIn t then []
    else
      [.error ("'solution_type' script_tag but no 'solution' script_tag found in the " ++
        "description block.")]

/-! ## The wording -/

def solutionOpening : Pattern :=
  .chain ["script_tag", .blanks, "(", .blanks, "name", .blanks, ":", .blanks, "\"solution\"", .blanks,
    ",", .blanks, "value", .blanks, ":", .blanks, "\""]

def dayOfMonth : Pattern :=
  .oneOf [.chain ["0", .one fun c => '1' ≤ c && c ≤ '9'],
    .chain [.one (among "12"), .one Text.isAsciiDigit], .chain ["3", .one (among "01")]]

def ordinalSuffix : Pattern :=
  wordOf ["st", "nd", "rd", "th"]

/-- The wording for a solution that is not available yet, with the day on which that was found. -/
def noneAvailableWording : Pattern :=
  .chain [solutionOpening, phrase "No known solution is available as of", .someBlanks, dayOfMonth,
    ordinalSuffix, .someBlanks, wordOf Date.monthNames, ",", .someBlanks, "20",
    .run .longest 2 (some 2) Text.isAsciiDigit, ".", .someBlanks,
    phrase "Information regarding this issue will be updated once solution details are available."]

def willNotFixWording : Pattern :=
  .chain [solutionOpening, .oneOf
    [.chain [phrase "No solution", .someBlanks,
        .oneOf [phrase "was made available by the vendor", phrase "is required"], ".", .someBlanks,
        "Note:", .run .longest 1 none inLine],
     .chain [.oneOf
        [phrase "No solution was made available by the vendor",
         phrase ("No known solution was made available for at least one year since the disclosure " ++
           "of this vulnerability. Likely none will be provided anymore")],
       ".", .someBlanks,
       phrase ("General solution options are to upgrade to a newer release, disable respective " ++
         "features, remove the product or replace the product by another one.")]]]

def noneAvailableForm : String :=
  "  script_tag(name:\"solution\", value:\"No known solution is " ++
  "available as of dd(st|nd|rd|th) mmmmmmmm, yyyy.\n  " ++
  "Information regarding this issue will be updated once solution details are available.\");"

def willNotFixForm : String :=
  "  script_tag(name:\"solution\", value:\"No known solution was made " ++
  "available for at least one year\n  since the disclosure of this " ++
  "vulnerability. Likely none will be provided anymore. General " ++
  "solution\n  options are to upgrade to a newer release, disable " ++
  "respective features, remove the product or\n  replace the " ++
  "product by another one.\");\n\n" ++
  "  script_tag(name:\"solution\", value:\"No solution was made " ++
  "available by the vendor. General solution\n  options are to " ++
  "upgrade to a newer release, disable respective features, remove " ++
  "the product or\n  replace the product by another one.\");\n\n" ++
  "  script_tag(name:\"solution\", value:\"No solution was made " ++
  "available by the vendor.\n\n  Note: " ++
  "<add a specific note for the reason here>.\");\n\n" ++
  "  script_tag(name:\"solution\", value:\"No solution is required.\n\n  Note: <add a specific note " ++
  "for the reason here, e.g. CVE was disputed>.\");"

def hasSolutionType (type : String) (t : List Char) : Bool :=
  (Script.tag Tag.solutionType.name type).occursIn t

def solutionTextRemark? (t : List Char) : Option Remark :=
  if hasSolutionType "NoneAvailable" t && !noneAvailableWording.occursIn t then
    some (.error ("The VT with solution type 'NoneAvailable' is using an incorrect syntax in the " ++
      "solution text. Please use (EXACTLY):\n" ++ noneAvailableForm))
  else if hasSolutionType "WillNotFix" t && !willNotFixWording.occursIn t then
    some (.error ("The VT with solution type 'WillNotFix' is using an incorrect syntax in the " ++
      "solution text. Please use one of these (EXACTLY):\n" ++ willNotFixForm))
  else none

def solutionText : FileCheck where
  name := "check_solution_text"
  title := "CheckSolutionText"
  run s _ := s.onText fun t => (solutionTextRemark? t).toList

end NaslLint.Checks

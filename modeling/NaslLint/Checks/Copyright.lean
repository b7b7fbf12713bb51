import NaslLint.Check
import NaslLint.Script.Tag
import NaslLint.Text.Lines

/-!
# Copyright statements

Outdated statements in the header of a script, years that differ from the year of creation, and
the form of the `script_copyright` call.
-/

namespace NaslLint.Checks

open Pattern

/-! ## The statement in the header -/

/-- The statement that replaces outdated ones. -/
def copyrightStatement : String :=
  "# Some text descriptions might be excerpted from (a) referenced\n" ++
  "# source(s), and are Copyright (C) by the respective right holder(s)."

def outdatedStatement : Pattern :=
  .chain [.lineStart, "# ", .oneOf
    [.chain ["Text descriptions are largely excerpted from the referenced\n",
        "# advisory, and are Copyright (", .one (among "cC"), ") ", .optional "of ",
        wordOf ["the", "their"], " respective author(s)"],
     .chain ["Some text descriptions might be excerpted from the referenced\n",
        "# advisories, and are Copyright (C) by the respective right holder(s)"]]]

/-- The text with every copy of its first outdated statement replaced. -/
def updateStatement? (t : List Char) : Option (List Char) :=
  (outdatedStatement.find? t).map fun m => Text.replaceAll m.text copyrightStatement.toList t

def copyrightText : FileCheck where
  name := "check_copyright_text"
  title := "CheckCopyrightText"
  run s _ := s.onScript fun t =>
    if outdatedStatement.occursIn t then
      [.error "The VT is using an incorrect copyright statement."]
    else []
  repair s _ := do
    let t ← s.text
    if s.file.isInclude then return none
    return (updateStatement? t).map fun new =>
      { text := new
        message := s!"The copyright statement has been updated to {copyrightStatement}" }

/-! ## Years -/

def copyrightYearExempt : List String :=
  ["sw_telnet_os_detection.nasl", "gb_hp_comware_platform_detect_snmp.nasl",
   "gb_hirschmann_telnet_detect.nasl"]

def asciiNumber : Pattern :=
  .run .longest 1 none Text.isAsciiDigit

def quotedValue : Pattern :=
  .chain ["value", .blanks, ":", .blanks, "\"", .group "value" .line, "\""]

def leadingYear : Pattern :=
  .chain [.textStart, .group "year" asciiNumber, "-"]

/-- A copyright statement with a year, in a comment or in the `script_copyright` call. -/
def yearStatement : Pattern :=
  .chain [.oneOf ["# ", .chain ["script_copyright", .line]], .one (among "Cc"), "opyright (",
    .one (among "Cc"), ") ", .group "year" asciiNumber]

def creationYear? (line : List Char) : Option (List Char) := do
  if !Text.contains "creation_date".toList line then none
  let value ← quotedValue.find? line
  let year ← leadingYear.find? (value.group "value")
  return year.group "year"

/-- The years of copyright statements, each with the number of its line. -/
def copyrightYears (lines : List (Nat × List Char)) : List (Nat × List Char) :=
  lines.filterMap fun (n, line) => (yearStatement.find? line).map fun m => (n, m.group "year")

/-- The remark on a copyright year. In scripts from before 2008 only a later year is wrong, years
being compared as text. -/
def yearRemark? (isOld : Bool) (created : List Char) (entry : Nat × List Char) : Option Remark :=
  let (n, year) := entry
  let wrong := if isOld then String.ofList created < String.ofList year else year != created
  if wrong then
    let shown := String.ofList created
    some (.errorInLine n s!"VT contains a Copyright year not matching the year {shown} at line {n}")
  else none

/-- Compares the years of copyright statements with the year of creation that is stated last. -/
def copyrightYear : FileCheck where
  name := "check_copyright_year"
  title := "CheckCopyrightYear"
  run s _ := s.onScript fun t =>
    let lines := Text.numberedLines t
    let created := (lines.filterMap fun (_, l) => creationYear? l).getLastD []
    let years := if s.isAmong copyrightYearExempt then [] else copyrightYears lines
    let missing :=
      if created.isEmpty then [Remark.error "Missing creation_date statement in VT"] else []
    missing ++ years.filterMap (yearRemark? (s.isAmong ["pre2008"]) created)

/-! ## The call -/

def scriptCopyright : FileCheck where
  name := "check_script_copyright"
  title := "CheckScriptCopyright"
  run s _ := s.onScript fun t =>
    let good : Pattern := .chain ["script_copyright(\"Copyright (C) ",
      .run .longest 4 (some 4) Text.isAsciiDigit]
    if good.occursIn t then []
    else
      [.error ("The VT is using an incorrect syntax for its " ++
        "copyright statement. Please start (EXACTLY) with: " ++
        "'script_copyright(\"Copyright (C)' followed by the year " ++
        "(matching the one in creation_date) and the author/company.")]

end NaslLint.Checks

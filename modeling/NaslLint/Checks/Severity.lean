import NaslLint.Check
import NaslLint.Script.Tag

/-!
# Severity of a vulnerability

The references to CVE entries, the CVSS score and vector, the quality of detection and the former
risk factor.
-/

namespace NaslLint.Checks

open Pattern

def score? (t : List Char) : Option (List Char) :=
  (Tag.cvssBase.pattern.find? t).map (·.group "value")

/-- A script without severity states a score of zero; such scripts detect products. -/
def hasNoSeverity (t : List Char) : Bool :=
  score? t == some "0.0".toList

/-! ## CVE references -/

/-- The text from the first mention of `script_cve_id` up to a semicolon. -/
def cveList : Pattern :=
  .chain ["script_cve_id", .group "list" (.run .longest 1 none (· != ';'))]

def cveEntry : Pattern :=
  .chain ["\"CVE-", .group "year" (.run .longest 4 (some 4) Text.isDigit), "-",
    .group "number" (.run .longest 4 (some 7) Text.isDigit), "\""]

/-- The remarks on a well-formed entry, `seen` being the entries before it. -/
def cveEntryRemarks (currentYear : Nat) (seen : List (List Char)) (entry : Match) : List Remark :=
  let number := entry.group "number"
  let year := (Text.readNat? (entry.group "year")).getD 0
  let shown := String.ofList entry.text
  (if number.length > 4 && number.head? == some '0' then
    [.error ("The last group of CVE digits of the VT must not start with a 0 if there are more " ++
      "than 4 digits.")]
  else []) ++
  (if 1999 ≤ year && year ≤ currentYear then []
    else [.error "VT uses an invalid year in CVE format."]) ++
  (if seen.contains entry.text then [.error s!"VT is using CVE {shown} multiple times."] else [])

/-- The remarks on the parts of a list of CVE entries, up to the first part without an entry. -/
def cveListRemarks (currentYear : Nat) : List (List Char) → List (List Char) → List Remark
  | _, [] => []
  | seen, part :: more =>
    match cveEntry.find? part with
    | none => [.error "VT uses an invalid CVE format."]
    | some entry =>
      cveEntryRemarks currentYear seen entry ++
        cveListRemarks currentYear (seen ++ [entry.text]) more

def cveRemarks (currentYear : Nat) (t : List Char) : List Remark :=
  if hasNoSeverity t then []
  else
    match cveList.find? t with
    | none => [.warning "VT does not refer to any CVEs."]
    | some m => cveListRemarks currentYear [] (Text.splitOn ',' (m.group "list"))

def cveFormat : FileCheck where
  name := "check_cve_format"
  title := "CheckCVEFormat"
  run s w := s.onScript (cveRemarks w.now.year)

/-! ## Score and vector -/

def cvssFormat : FileCheck where
  name := "check_cvss_format"
  title := "CheckCVSSFormat"
  run s _ := s.onScript fun t =>
    (if Text.contains "\"cvss_base\", value:\"\"".toList t then
      [.error "VT has a missing cvss_base value."]
    else if Tag.cvssBase.pattern.occursIn t then []
    else [.error "VT has an invalid cvss_base value."]) ++
    (if Tag.cvssBaseVector.pattern.occursIn t then []
    else [.error "VT has a missing or invalid cvss_base_vector value."])

/-! ## Quality of detection -/

def qodNumbers : List Nat :=
  [1, 30, 50, 70, 75, 80, 95, 97, 98, 99, 100]

def qodTypes : List String :=
  ["exploit", "remote_vul", "remote_app", "package", "registry", "remote_active", "remote_banner",
   "executable_version", "remote_analysis", "remote_probe", "remote_banner_unreliable",
   "executable_version_unreliable", "general_note"]

def qodNumberRemark? (m : Match) : Option Remark :=
  let call := String.ofList m.text
  let allowed := ", ".intercalate (qodNumbers.map Nat.repr)
  let invalid (shown : String) : Remark :=
    .error s!"{call}: '{shown}' is an invalid QoD number value. Allowed are {allowed}"
  match Text.readInt? (m.group "value") with
  | none => some (invalid (String.ofList (m.group "value")))
  | some n =>
    if qodNumbers.any fun q => (q : Int) == n then none else some (invalid (toString n))

def qodTypeRemark? (m : Match) : Option Remark :=
  let value := m.group "value"
  if qodTypes.contains (String.ofList (value.filter (· != '"'))) then none
  else
    let call := String.ofList m.text
    let shown := String.ofList value
    let allowed := ", ".intercalate qodTypes
    some (.error s!"{call}: '{shown}' is an invalid QoD type. Allowed are {allowed}")

/-- Checks that a script states its quality of detection, once and in an allowed way. -/
def qod : FileCheck where
  name := "check_qod"
  title := "CheckQod"
  run s _ := s.onScriptOnly fun t =>
    let numbers := Tag.qod.pattern.findAll t
    let types := Tag.qodType.pattern.findAll t
    let count := numbers.length + types.length
    (if count < 1 then [.error "VT is missing QoD or QoD type"] else []) ++
    (if count > 1 then [.error "VT contains multiple QoD values"] else []) ++
    numbers.filterMap qodNumberRemark? ++ types.filterMap qodTypeRemark?

/-! ## Risk factor -/

/-- Reports a risk factor, which scripts no longer state. -/
def riskFactor : FileCheck where
  name := "check_risk_factor"
  title := "CheckRiskFactor"
  run s _ := s.onText fun t =>
    let call : Pattern := .chain ["script_tag(name:\"risk_factor\", value:\"",
      .group "risk" (.run .longest 1 none inLine), "\");"]
    match call.find? t with
    | none => []
    | some m =>
      let risk := String.ofList (m.group "risk")
      [.error s!"Deprecated function \"risk factor\" found: {risk}"]

end NaslLint.Checks

import NaslLint.Check
import NaslLint.Script.Tag

/-!
# Tags of a script

Which tags a script must and may have, how often, and how they have to be written.
-/

namespace NaslLint.Checks

open Pattern

/-- Any part of a line with at least one character, line breaks included, as short as possible. -/
def anyTag : Pattern :=
  Script.tag Script.shortText Script.shortText

/-! ## Repeated tags -/

def repeatedDependenciesExempt : List String :=
  ["GSHB/EL15/GSHB.nasl", "gsf/PCIDSS/PCI-DSS.nasl", "gsf/PCIDSS/v2.0/PCI-DSS-2.0.nasl"]

def mayRepeat (s : Subject) (t : List Char) : Call → Bool
  | .addPreference | .xref => true
  | .dependencies => s.isAmong repeatedDependenciesExempt || Text.contains "FEED_NAME".toList t
  | _ => false

def repeatedTags : FileCheck where
  name := "check_duplicated_script_tags"
  title := "CheckDuplicatedScriptTags"
  run s _ := s.onScriptOnly fun t =>
    ((Call.all.filter fun c => !mayRepeat s t c && (c.pattern.findAll t).length > 1).map fun c =>
      let word := c.word
      .error s!"The VT is using the script tag 'script_{word}' multiple number of times.") ++
    ((Tag.all.filter fun g => (g.pattern.findAll t).length > 1).map fun g =>
      let name := g.name
      .error s!"The VT is using the script tag '{name}' multiple number of times.")

/-! ## Mandatory and recommended ones -/

def mandatoryTags : List Tag :=
  [.summary]

def mandatoryCalls : List Call :=
  [.name, .version, .category, .family, .copyright]

def missingMandatory (name : String) : Remark :=
  .error s!"VT does not contain the following mandatory tag: 'script_{name}'"

def mandatoryParts : FileCheck where
  name := "check_script_tags_mandatory"
  title := "CheckScriptTagsMandatory"
  run s _ := s.onScript fun t =>
    ((mandatoryTags.filter fun g => !g.pattern.occursIn t).map fun g => missingMandatory g.name) ++
    ((mandatoryCalls.filter fun c => !c.pattern.occursIn t).map fun c => missingMandatory c.word)

/-- Calls of which a script should make at least one. -/
def recommendedAlternatives : List String :=
  ["require_ports", "require_udp_ports", "require_keys", "mandatory_keys"]

/-- A call made early in a scan, which needs no preparation. -/
def earlyCategory : Pattern :=
  Script.call "category" (.chain ["ACT_", wordOf ["SETTINGS", "SCANNER", "INIT"]])

def recommendedCalls : FileCheck where
  name := "check_script_calls_recommended"
  title := "CheckScriptCallsRecommended"
  run s _ := s.onScript fun t =>
    if earlyCategory.occursIn t || Tag.deprecated.pattern.occursIn t then []
    else
      (if (Script.call (wordOf recommendedAlternatives) .line).occursIn t then []
      else
        let names := ", ".intercalate recommendedAlternatives
        [.warning s!"VT contains none of the following recommended calls: {names}"]) ++
      (if (Script.call "dependencies" (.run .longest 0 none fun _ => true)).occursIn t then []
      else
        [.warning "VT does not contain the following recommended call: 'script_dependencies'"])

/-! ## Names -/

def allowedTagNames : List String :=
  ["solution", "solution_type", "qod_type", "cvss_base", "cvss_base_vector", "summary",
   "last_modification", "insight", "affected", "creation_date", "vuldetect", "impact",
   "deprecated", "qod", "severity_vector", "severity_origin", "severity_date", "solution_method"]

def tagNames : FileCheck where
  name := "check_valid_script_tag_names"
  title := "CheckValidScriptTagNames"
  run s _ := s.onScript fun t =>
    (((anyTag.findAll t).map fun m => String.ofList (m.group "name")).filter
      fun name => !allowedTagNames.contains name).map fun name =>
        .error s!"The script_tag name '{name}' is not allowed."

/-! ## Form -/

/-- A call in a line, from its name to the last closing bracket and semicolon. -/
def callInLine (name : String) : Pattern :=
  .chain [name, "(", .line, ");"]

/-- Calls in lines that do not have the form they should have. -/
def malformedCalls (name : String) (form : Pattern) (t : List Char) : List String :=
  (((callInLine name).findAll t).filter fun m => (form.matchStart? m.text).isNone).map fun m =>
    String.ofList m.text

def tagForm : FileCheck where
  name := "check_script_tag_form"
  title := "CheckScriptTagForm"
  run s _ := s.onScript fun t =>
    (malformedCalls "script_tag" (Script.tag .line .line) t).map fun call =>
      .error s!"{call}: does not conform to script_tag(name:\"<name>\", value:<value>);"

def referenceForm : FileCheck where
  name := "check_script_xref_form"
  title := "CheckScriptXrefForm"
  run s _ := s.onScript fun t =>
    (malformedCalls "script_xref" (Script.xref .line .line) t).map fun call =>
      .error s!"{call}: does not conform to script_xref(name:\"<name>\", value:<value>);"

def emptyValues : FileCheck where
  name := "check_script_calls_empty_values"
  title := "CheckScriptCallsEmptyValues"
  run s _ := s.onScript fun t =>
    ((Script.tag .line .nothing).findAll t ++ (Script.xref .line .nothing).findAll t).map fun m =>
      let call := String.ofList m.text
      .error s!"{call} does not contain a value"

def blanksAroundValues : FileCheck where
  name := "check_script_tag_whitespaces"
  title := "CheckScriptTagWhitespaces"
  run s _ := s.onScript fun t =>
    ((anyTag.findAll t).filter fun m =>
      let value := m.group "value"
      value.head?.any Text.isBlank || value.getLast?.any Text.isBlank).map fun m =>
        let call := String.ofList m.text
        .error s!"{call}: value contains a leading or trailing whitespace character"

/-! ## Length -/

def valueLimit : Nat := 3000

def overlongExempt : List String :=
  ["gb_nmap6_", "monstra_cms_mult_vuln", "gb_huawei-sa-", "lsc_options.nasl"]

def overlongValues : FileCheck where
  name := "check_overlong_script_tags"
  title := "CheckOverlongScriptTags"
  run s _ := s.onScript fun t =>
    if s.isAmong overlongExempt then []
    else Tag.all.flatMap fun g =>
      (((g.pattern.findAll t).map fun m => (m.group "value").length).filter
        (· > valueLimit)).map fun length =>
          let name := g.name
          .error s!"Tag {name} is to long with {length} characters. Max {valueLimit}"

/-! ## Category and family -/

def categoryCall : Pattern :=
  .chain [.lineStart, .blanks, "script_category", .blanks, "(",
    .group "category" (.run .longest 3 none (· != ')')), ")", .blanks, ";"]

def scriptCategory : FileCheck where
  name := "check_script_category"
  title := "CheckScriptCategory"
  run s _ := s.onScript fun t =>
    match categoryCall.find? t with
    | none => [.error "VT is missing a script_category."]
    | some m =>
      let name := String.ofList (m.group "category")
      if (Category.numbers.lookup name).isSome then []
      else [.error s!"VT is using an unsupported category '{name}'."]

def families : List String :=
  ["AIX Local Security Checks", "Alma Linux Local Security Checks",
   "Amazon Linux Local Security Checks", "Brute force attacks", "Buffer overflow", "CISCO",
   "CentOS Local Security Checks", "Citrix Xenserver Local Security Checks", "Compliance",
   "Credentials", "Databases", "Debian Local Security Checks", "Default Accounts",
   "Denial of Service", "F5 Local Security Checks", "FTP", "Fedora Local Security Checks",
   "FortiOS Local Security Checks", "FreeBSD Local Security Checks", "Gain a shell remotely",
   "General", "Gentoo Local Security Checks", "Huawei", "Huawei EulerOS Local Security Checks",
   "HP-UX Local Security Checks", "IT-Grundschutz", "IT-Grundschutz-deprecated",
   "IT-Grundschutz-15", "JunOS Local Security Checks", "Mac OS X Local Security Checks",
   "Mageia Linux Local Security Checks", "Malware", "Mandrake Local Security Checks", "Nmap NSE",
   "Nmap NSE net", "Oracle Linux Local Security Checks", "PCI-DSS", "PCI-DSS 2.0",
   "Palo Alto PAN-OS Local Security Checks", "Peer-To-Peer File Sharing", "Policy",
   "Port scanners", "Privilege escalation", "Product detection", "RPC",
   "Red Hat Local Security Checks", "Remote file access", "Rocky Linux Local Security Checks",
   "SMTP problems", "SNMP", "SSL and TLS", "Service detection", "Settings",
   "Slackware Local Security Checks", "Solaris Local Security Checks",
   "SuSE Local Security Checks", "Ubuntu Local Security Checks", "Useless services",
   "VMware Local Security Checks", "Web Servers", "Web application abuses", "Windows",
   "Windows : Microsoft Bulletins"]

/-- Checks that a script belongs to exactly one family and that the family exists. -/
def scriptFamily : FileCheck where
  name := "check_script_family"
  title := "CheckScriptFamily"
  run s _ := s.onScript fun t =>
    match Call.family.pattern.findAll t with
    | [] => [.error "No script family exist"]
    | [m] =>
      let family := String.ofList (m.group "value")
      if families.contains family then []
      else [.error s!"Invalid or misspelled script family '{family}'"]
    | _ => [.error "More then one script family exist"]

end NaslLint.Checks

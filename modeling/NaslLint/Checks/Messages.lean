import NaslLint.Check
import NaslLint.Checks.Severity
import NaslLint.Script.Tag

/-!
# Messages that a script reports

Scripts with a severity report by `security_message`, all others by `log_message`; `display` is for
debugging only.
-/

namespace NaslLint.Checks

open Pattern

/-- The end of a call, which a comment may follow. -/
def statementEnd : Pattern :=
  .chain [")", .blanks, .oneOf [";", .chain [";", .blanks, .one (among "\n#")]]]

/-! ## Log messages -/

def emptyLogMessage : Pattern :=
  .chain ["log_message", .blanks, "(", .blanks, statementEnd]

def filledLogMessage : Pattern :=
  .chain ["log_message", .blanks, "(",
    .run .longest 1 none (fun c => Text.isWord c || Text.isBlank c || among ":#.&-!,<>[]()\"+'/\\" c),
    statementEnd]

/-- Reports empty log messages, and log messages of scripts with a severity. -/
def logMessages : FileCheck where
  name := "check_log_messages"
  title := "CheckLogMessages"
  run s _ := s.onText fun t =>
    (if emptyLogMessage.occursIn t then
      [.error "The VT is using an empty log_message() function"]
    else []) ++
    (if s.file.isInclude || s.isAmong ["Policy/"] || hasNoSeverity t then []
    else if filledLogMessage.occursIn t then
      [.warning "The VT is using a log_message in a VT with a severity"]
    else [])

/-! ## Security messages -/

def filledSecurityMessage : Pattern :=
  .chain ["security_message", .blanks, "(",
    .run .longest 1 none (fun c => Text.isWord c || Text.isBlank c || among ":#.&-!,<>[]()\"`+'/\\" c),
    statementEnd]

def securityMessages : FileCheck where
  name := "check_security_messages"
  title := "CheckSecurityMessages"
  run s _ := s.onScript fun t =>
    if s.isAmong ["Policy/", "PCIDSS/", "GSHB/"] then []
    else if (score? t).any (· != "0.0".toList) then []
    else if filledSecurityMessage.occursIn t then
      [.error "VT is using a security_message in a VT without severity"]
    else []

/-! ## Consistency with the score -/

def reportingExempt : List String :=
  ["mssql_version.nasl", "pre2008/domino_default_db.nasl", "pre2008/oracle_tnslsnr_security.nasl",
   "pre2008/smtp_AV_42zip_DoS.nasl", "pre2008/shoutcast_version.nasl",
   "2017/gb_default_http_credentials_report.nasl", "2017/gb_dcetest_report.nasl",
   "2021/gb_ntp_mode6_response_check.nasl", "GSHB/GSHB_WMI_get_Shares.nasl",
   "GSHB/GSHB_WMI_Loginscreen.nasl", "GSHB/GSHB_WMI_CD-FD-User-only-access.nasl",
   "gb_dicom_service_ae_title_brute_force.nasl", "Policy/policy_controls_fail.nasl",
   "PCIDSS/PCI-DSS.nasl", "2016/gb_ssl_tls_weak_hash_algo.nasl",
   "2018/gb_unquoted_path_vulnerabilities_win.nasl", "2009/remote-net-hub-3com.nasl",
   "2015/gb_vnc_brute_force.nasl", "2012/gb_secpod_ssl_ciphers_weak_report.nasl",
   "GSHB/GSHB_Kompendium.nasl", "/policy_control_template.nasl", "/template.nasl",
   "/examples/test_ipv6_packet_forgery.nasl"]

/-- A reporting statement at the start of a line, after at most one character that does not open a
comment. -/
def reportStatement (function : String) : Pattern :=
  .chain [.lineStart, .blanks, optionalChar (· != '#'), .blanks, function, .blanks, "(",
    Script.shortText, ")", .blanks, ";", .one Text.isBlank]

/-- Checks that scripts report in the way their score asks for. -/
def reportingConsistency : FileCheck where
  name := "check_reporting_consistency"
  title := "CheckReportingConsistency"
  run s _ := s.onScript fun t =>
    if s.isAmong reportingExempt then []
    else
      match score? t with
      | none => [.error "VT/Include has no cvss_base tag"]
      | some score =>
        let isZero := score == "0.0".toList
        (if !isZero && (reportStatement "log_message").occursIn t then
          [.error "Tag cvss_base is not 0.0 use report function security_message"]
        else []) ++
        (if isZero && (reportStatement "security_message").occursIn t then
          [.error "Tag cvss_base is 0.0 use report function log_message"]
        else [])

/-! ## Display -/

def displayLine : Pattern :=
  .chain [.line, "display", .blanks, "(", .run .longest 1 none (· != ')'), ")", .blanks, ";"]

/-- A call of `display` after a comment sign or a condition. -/
def guardedDisplay : Pattern :=
  .chain [.oneOf [.chain ["if", .blanks, "("], "#"], .line, "display", .blanks, "("]

/-- Texts of files in which certain calls of `display` are allowed. -/
def displayContexts : List (String × String) :=
  [("ssh_func.inc", "display( debug_str )"),
   ("gb_treck_ip_stack_detect.nasl", "display(\"---["),
   ("ike_isakmp_func.inc", "display( \"---["),
   ("pcap_func.inc", "display( \"---["),
   ("os_eol.inc", "display( \"DEBUG: Base CPE"),
   ("DDI_Directory_Scanner.nasl", ":: Got a")]

def displayExempt : List String :=
  ["gsf/dicom.inc", "enterprise/dicom.inc", "global_settings.inc", "rdp.inc", "bin.inc"]

def displayAllowed (file : String) (call : List Char) : Bool :=
  displayContexts.any (fun (f, w) => Text.occursIn f file && Text.contains w.toList call) ||
    displayExempt.any fun f => Text.occursIn f file

def displayCalls : FileCheck where
  name := "check_using_display"
  title := "CheckUsingDisplay"
  run s _ := s.onText fun t =>
    (((displayLine.findAll t).map (·.text)).filter
      fun call => !displayAllowed s.file.toString call).map fun call =>
        let shown := String.ofList call
        if guardedDisplay.occursIn call then
          .warning ("VT is using a display() function which is protected by a comment or an if " ++
            s!"statement at: {shown}.")
        else .error s!"VT/Include is using a display() function at: {shown}"

end NaslLint.Checks

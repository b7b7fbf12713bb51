import NaslLint.Check
import NaslLint.Pattern.Search

/-!
# Conditions and blocks in the code of a script

Comparisons with their sides swapped, assignments in the place of comparisons, and the block that
describes the script.
-/

namespace NaslLint.Checks

open Pattern

def conditionWord : Pattern :=
  .oneOf ["if", .chain [optionalChar (· == '\x7d'), .blanks, "else if"]]

def isNameStart (c : Char) : Bool :=
  c.isAlpha || c == '_'

/-! ## Misplaced comparisons -/

def compareExempt : List String :=
  ["PCIDSS_M8.2.4.a.nasl", "PCIDSS_M10.3.2.nasl", "PCIDSS_M10.2.6.nasl", "PCIDSS_M10.2.4.nasl",
   "PCIDSS_M8.2.5.a.nasl", "PCIDSS_M10.3.1.nasl", "PCI-DSS.nasl", "PCIDSS_M8.1.4.nasl",
   "PCIDSS_M10.3.3.nasl", "PCIDSS_M10.2.5.nasl", "PCIDSS_M8.1.7.nasl", "PCIDSS_M10.3.5.nasl",
   "PCIDSS_M8.1.8.nasl", "PCIDSS_M10.3.6.nasl", "PCIDSS_M8.2.3.a.nasl", "PCIDSS_M8.1.6.a.nasl",
   "PCIDSS_M10.3.4.nasl", "PCIDSS_M5.2.a.nasl", "PCIDSS_M5.1.nasl", "GSHB_WMI_Apache.nasl",
   "GSHB_WMI_EFS.nasl", "GSHB_WMI_Antivir.nasl", "GSHB_WMI_ProtectedMode.nasl",
   "GSHB_WMI_WinAdminTools.nasl", "GSHB_WMI_PolSecSet.nasl", "GSHB_WMI_BootDrive.nasl",
   "GSHB_WMI_W2K3_ClientFunk.nasl", "GSHB_WMI_IIS_Protect_SynAttack.nasl",
   "GSHB_WMI_NtpServer.nasl", "GSHB_WMI_IPSec_Policy.nasl", "GSHB_WMI_removable-media.nasl",
   "GSHB_WMI_get_AdminUsers.nasl", "GSHB_WMI_SNMP_Communities.nasl",
   "GSHB_WMI_IIS_UrlScanFilter.nasl", "GSHB_Read_Apache_Config.nasl", "GSHB_SMB_SDDL.nasl",
   "GSHB_WMI_IIS_RDS.nasl", "GSHB_WMI_PathVariables.nasl", "GSHB_WMI_Hibernate.nasl",
   "GSHB_Kompendium.nasl", "GSHB_WMI_XP-InetComm.nasl", "GSHB_WMI_EventLogPolSet.nasl",
   "GSHB_WMI_get_Shares.nasl", "GSHB_WMI_CD-FD-User-only-access.nasl",
   "GSHB_WMI_IIS_Samplefiles.nasl", "GSHB_WMI_list_Services.nasl",
   "GSHB_WMI_TerminalServerSettings.nasl", "GSHB_WMI_Driver-Autostart.nasl",
   "GSHB_WMI_Loginscreen.nasl", "GSHB_WMI_IIS_exec_cmd.nasl", "GSHB_WMI_AllowRemoteDASD.nasl",
   "GSHB_WMI_Passfilt.nasl", "GSHB_WMI_ScreenSaver_Status.nasl", "GSHB_WMI_WinFirewallStat.nasl",
   "GSHB_WMI_CD-Autostart.nasl", "GSHB_WMI_WIN_Subsystem.nasl", "GSHB_WMI_pre2000comp.nasl",
   "GSHB_WMI_PasswdPolicie.nasl", "GSHB_WMI_DomContrTest.nasl", "GSHB_WMI_get_ODBCINST.nasl"]

/-- A condition at the start of a line, up to the opening of its block or the end of its
statement. -/
def conditionStatement : Pattern :=
  .chain [.lineStart, .blanks, conditionWord, .blanks, "(", .group "condition" .line, ")", .blanks,
    .oneOf ["\x7b", .chain [.oneOf [.line, .chain [.line, "\n", .line]], ";"]]]

/-- A variable compared with a text, the variable being on the wrong side. -/
def misplacedCompare : Pattern :=
  .chain [.oneOf [.chain [conditionWord, .blanks, "(", .blanks], .chain ["||", .blanks],
      .chain ["&&", .blanks]],
    .run .longest 1 none isNameStart, .blanks, ">", optionalChar (· == '!'), "<", .blanks,
    .one (among "\"'")]

def misplacedCompares : FileCheck where
  name := "check_misplaced_compare_in_if"
  title := "CheckMisplacedCompareInIf"
  run s _ :=
    if s.isAmong compareExempt then .done []
    else s.onText fun t =>
      ((conditionStatement.findAll t).filter fun m => misplacedCompare.occursIn m.text).map fun m =>
        let shown := String.ofList m.text
        .error s!"VT/Include is using a misplaced compare within an if() call in {shown}"

/-! ## Assignments -/

/-- A condition at the start of a line, up to its first closing bracket. -/
def conditionHead : Pattern :=
  .chain [.lineStart, .blanks, conditionWord, .blanks, "(", .run .longest 1 none (· != ')')]

/-- A variable that a constant is assigned to. -/
def assignment : Pattern :=
  .chain [.oneOf [.chain [conditionWord, .blanks, "(", .run .shortest 0 none Text.isBlank],
      .chain ["||", .blanks], .chain ["&&", .blanks]],
    .one isNameStart, .run .longest 0 none fun c => c.isAlphanum || c == '_', .blanks, "=", .blanks,
    wordOf ["\"", "'", "TRUE", "0", "1"]]

def assigningConditions (fileName : String) (t : List Char) : List (List Char) :=
  ((conditionHead.findAll t).map (·.text)).filter fun c =>
    assignment.occursIn c &&
      !(Text.occursIn "policy_file_checksums_win.nasl" fileName &&
        Text.contains "install = ".toList c)

/-- Reports assignments in the place of comparisons, all in one. -/
def assignmentsInConditions : FileCheck where
  name := "check_variable_assigned_in_if"
  title := "CheckVariableAssignedInIf"
  run s _ := s.onText fun t =>
    let name := s.file.name
    match assigningConditions name t with
    | [] => []
    | found =>
      let lines := String.join (found.map fun c => " " ++ String.ofList c ++ "\n")
      [.error (s!"VT/Include '{name}' is using a variable assignment within an if() call in " ++
        s!"the following line(s):\n{lines}")]

/-! ## The description block -/

def descriptionBlock : Pattern :=
  .chain [.lineStart, "if", .blanks, "(", .blanks, "description", .blanks, ")", .blanks, "\x7b",
    .group "block" (.run .shortest 1 none fun _ => true), .lineStart, "\x7d"]

def exitCall : Pattern :=
  .chain [.lineStart, .blanks, "exit", .blanks, "(", .blanks, "0", .blanks, ")", .blanks, ";"]

/-- Checks that the description block ends the script. -/
def descriptionExit : FileCheck where
  name := "check_missing_desc_exit"
  title := "CheckMissingDescExit"
  run s _ := s.onScript fun t =>
    match descriptionBlock.find? t with
    | none => [.error "No description block extracted/found."]
    | some m =>
      if exitCall.occursIn (m.group "block") then []
      else [.error "No mandatory exit(0); found in the description block."]

end NaslLint.Checks

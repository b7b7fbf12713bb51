import NaslLint.Check
import NaslLint.Checks.Dependencies
import NaslLint.Checks.Severity
import NaslLint.Script.Tag

/-!
# Detection scripts

Scripts that detect products and services stand at the top of the feed and report no
vulnerabilities.
-/

namespace NaslLint.Checks

open Pattern

/-- A call that puts a script into a family of detection scripts. -/
def detectionFamily : Pattern :=
  Script.call "family" (.chain [wordOf ["Product", "Service"], " detection"])

/-! ## Place in the feed -/

/-- Where a detection script of the given name may stand. -/
def detectionPlaces (root : Path) (name : String) : List Path :=
  (feedDirectories.map fun dir => root / dir / name) ++
    ("attic" :: enterpriseFolders).flatMap fun folder =>
      feedDirectories.map fun dir => root / dir / folder / name

/-- Reports detection scripts that are not at the top of the feed. -/
def detectionPlacement : FileCheck where
  name := "check_vt_placement"
  title := "CheckVTPlacement"
  run s _ := s.onScript fun t =>
    if detectionFamily.occursIn t && !Tag.deprecated.pattern.occursIn t &&
        !(detectionPlaces s.root s.file.name).contains s.file then
      let root := s.root
      [.error s!"VT should be placed in the root directory ({root})."]
    else []

/-! ## Detection in scripts with a severity -/

/-- A call of a function that registers what has been detected. -/
def detectionCall : Pattern :=
  .chain [.group "function" (.oneOf
      [.chain ["register_", .oneOf ["product", .chain ["and_report_", wordOf ["os", "cpe"]],
         "host_detail"]],
       .chain ["service_", wordOf ["register", "report"]],
       .chain ["build_", wordOf ["cpe", "detection_report"]],
       .chain ["report_", .oneOf [.chain ["host_", wordOf ["detail_single", "details"]],
         .chain ["best_os_", wordOf ["cpe", "txt"]]]]]),
    .blanks, "(", .group "body" (.run .longest 1 none (· != ')')), ")", .blanks, ";"]

def detectionRemarks (t : List Char) : List Remark :=
  (match detectionFamily.find? t with
    | none => []
    | some m =>
      let family := String.ofList (m.group "value")
      [.error (s!"VT has a severity but is placed in the family '{family}' which is not allowed " ++
        "for this VT. Please split this VT into a separate Product/Service detection and " ++
        "Vulnerability-VT.")]) ++
  ((detectionCall.findAll t).filter fun m =>
    !(["detected_by", "detected_at"].any fun w => Text.contains w.toList (m.group "body"))).map
      fun m =>
        let function := String.ofList (m.group "function")
        .error (s!"VT has a severity but is using the function '{function}' which is not allowed " ++
          "for this VT. Please split this VT into a separate Product/Service detection and " ++
          "Vulnerability-VT.")

def detectionWithSeverity : FileCheck where
  name := "check_prod_svc_detect_in_vulnvt"
  title := "CheckProdSvcDetectInVulnvt"
  run s _ := s.onScriptOnly fun t => if hasNoSeverity t then [] else detectionRemarks t

end NaslLint.Checks

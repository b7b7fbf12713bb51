import NaslLint.Check
import NaslLint.Script.Tag

/-!
# Object identifiers

Every script has an object identifier below `1.3.6.1.4.1.25623.1`. Branch 0 is numbered by ranges,
branch 1 belongs to vendors and branch 2 to products; some vendors and products have a scheme for
the numbers that follow.
-/

namespace NaslLint.Checks

open Pattern

/-- The first object identifier that a script states. -/
def oid? (t : List Char) : Option (List Char) :=
  (Call.oid.pattern.find? t).map (·.group "oid")

/-- The numbers below which all identifiers lie. -/
def oidStem : String :=
  "1.3.6.1.4.1.25623.1."

def asciiDigits (lo : Nat) (hi : Option Nat) : Pattern :=
  .run .longest lo hi Text.isAsciiDigit

def digitBetween (lo hi : Char) : Pattern :=
  .one fun c => lo ≤ c && c ≤ hi

/-- The year of an advisory, in or after the decade given. -/
def advisoryYear (decade : Char) : Pattern :=
  .chain ["20", digitBetween decade '4', digitBetween '0' '9']

def oidScheme (start : String) (rest : List Pattern) : Pattern :=
  .chain (.textStart :: .word start.toList :: (rest ++ [.textEnd]))

/-- How a vendor numbers its advisories, in words and as a pattern. -/
structure Scheme where
  pattern : Pattern
  wording : String

/-- A vendor with a branch of its own. An unsigned vendor is reported without file and check. -/
structure Vendor where
  number : String
  label : String
  family : String
  scheme : Option Scheme := none
  signed : Bool := true

def vendors : List Vendor :=
  [{ number := "1", label := "Debian", family := "Debian Local Security Checks" },
   { number := "2", label := "EulerOS", family := "Huawei EulerOS Local Security Checks"
     scheme := some
      { pattern := oidScheme "1.3.6.1.4.1.25623.1.1.2." [advisoryYear '0', ".", asciiDigits 4 (some 4)]
        wording := "EulerOS pattern: 1.3.6.1.4.1.25623.1.1.2.[ADVISORY_YEAR].[ADVISORY_ID]" } },
   { number := "4", label := "SUSE SLES", family := "SuSE Local Security Checks"
     scheme := some
      { pattern := oidScheme "1.3.6.1.4.1.25623.1.1.4."
          [advisoryYear '0', ".", asciiDigits 4 (some 5), ".", asciiDigits 1 (some 1)]
        wording := "SLES pattern: 1.3.6.1.4.1.25623.1.1.4.[ADVISORY_YEAR].[ADVISORY_ID]" ++
          ".[ADVISORY_REVISION]" } },
   { number := "5", label := "Amazon Linux", family := "Amazon Linux Local Security Checks"
     scheme := some
      { pattern := oidScheme "1.3.6.1.4.1.25623.1.1.5." [advisoryYear '0', ".", asciiDigits 1 none]
        wording := "Amazon pattern: 1.3.6.1.4.1.25623.1.1.5.[ADVISORY_YEAR].[ADVISORY_ID]" } },
   { number := "6", label := "Gentoo", family := "Gentoo Local Security Checks" },
   { number := "7", label := "FreeBSD", family := "FreeBSD Local Security Checks" },
   { number := "8", label := "Oracle Linux", family := "Oracle Linux Local Security Checks" },
   { number := "9", label := "Fedora", family := "Fedora Local Security Checks" },
   { number := "10", label := "Mageia Linux", family := "Mageia Linux Local Security Checks"
     scheme := some
      { pattern := oidScheme "1.3.6.1.4.1.25623.1.1.10." [advisoryYear '0', ".", asciiDigits 4 (some 4)]
        wording := "Mageia pattern: 1.3.6.1.4.1.25623.1.1.10.[ADVISORY_YEAR].[ADVISORY_ID]" } },
   { number := "11", label := "RedHat", family := "RedHat Local Security Checks" },
   { number := "12", label := "Ubuntu", family := "Ubuntu Local Security Checks" },
   { number := "13", label := "Slackware", family := "Slackware Local Security Checks"
     signed := false
     scheme := some
      { pattern := oidScheme "1.3.6.1.4.1.25623.1.1.13."
          [advisoryYear '0', ".", asciiDigits 3 (some 4), ".", asciiDigits 2 (some 2)]
        wording := "Slackware pattern: 1.3.6.1.4.1.25623.1.1.13.[ADVISORY_YEAR].[ADVISORY_ID]" ++
          ".[ADVISORY_REVISION]" } },
   { number := "14", label := "Rocky Linux", family := "Rocky Linux Local Security Checks" },
   { number := "15", label := "Alma Linux", family := "Alma Linux Local Security Checks" }]

def vendorNumber? (oid : List Char) : Option String :=
  ((Pattern.chain [.textStart, "1.3.6.1.4.1.25623.1.1.", .group "vendor" (asciiDigits 1 none),
    "."]).find? oid).map fun m => String.ofList (m.group "vendor")

def invalidOid (oid : List Char) (rule : String) : String :=
  let shown := String.ofList oid
  s!"script_oid() is using an invalid OID '{shown}'{rule}"

def judgeVendor (v : Vendor) (family oid : List Char) : List Remark :=
  let complain (message : String) : List Remark :=
    [{ weight := .error, message, signed := v.signed }]
  if String.ofList family ≠ v.family then
    let label := v.label
    let shown := String.ofList oid
    complain s!"script_oid() is using an OID that is reserved for {label} '{shown}'"
  else
    match v.scheme with
    | none => []
    | some scheme =>
      if scheme.pattern.occursIn oid then []
      else
        let wording := scheme.wording
        complain (invalidOid oid s!" ({wording})")

def judgeVendorBranch (t oid : List Char) : List Remark :=
  match Call.family.pattern.find? t with
  | none => [.error "VT is missing a script family!"]
  | some family =>
    match vendorNumber? oid with
    | none => [.error (invalidOid oid " (last digits)")]
    | some number =>
      match vendors.find? (·.number == number) with
      | none => [.error (invalidOid oid " (Vendor OID with unknown Vendor-Prefix)")]
      | some v => judgeVendor v (family.group "value") oid

/-- Scripts whose identifiers lie outside the ranges for good. -/
def oidExempt : List String :=
  ["ossim_server_detect.nasl",
   "gsf/2018/vmware/gb_vmware_fusion_vmxnet3_stack_memory_usage_vuln_macosx.nasl",
   "enterprise/2018/vmware/gb_vmware_fusion_vmxnet3_stack_memory_usage_vuln_macosx.nasl",
   "2008/asterisk_sdp_header_overflow.nasl", "2008/cisco_ios_ftp_server_auth_bypass.nasl",
   "2008/qk_smtp_server_dos.nasl", "2008/asterisk_pbx_guest_access_enabled.nasl",
   "2008/asterisk_null_pointer_dereference.nasl", "2008/goaheadwebserver_source_disclosure.nasl",
   "2011/secpod_ibm_lotus_domino_rpc_auth_dos_vuln.nasl",
   "2011/secpod_cubecart_mult_xss_and_sql_inj_vuln.nasl",
   "2016/gb_adobe_air_mult_vuln_feb16_macosx.nasl", "attic/gb_cybozu_garoon_mult_vuln_aug16.nasl",
   "2017/gb_openssh_mult_vuln_jan17_lin.nasl", "2017/gb_xenserver_ctx219378.nasl"]

def assignedRanges : List (Nat × Nat) :=
  [(10000, 29999), (50000, 118999), (120000, 127999), (130000, 169999), (170000, 179999),
   (200000, 209999), (700000, 919999), (1020000, 1029999)]

/-- The number of an identifier in the branch of ranges, as it is written. -/
def rangeDigits? (oid : List Char) : Option (List Char) :=
  ((Pattern.chain [.textStart, "1.3.6.1.4.1.25623.1.0.", .group "number" (asciiDigits 1 none)]).find?
    oid).map (·.group "number")

def judgeRange (s : Subject) (oid : List Char) : Outcome Remark :=
  match rangeDigits? oid with
  | none => .done [.error (invalidOid oid " (last digits)")]
  | some digits =>
    if s.isAmong oidExempt then .done []
    else
      match Text.readNat? digits with
      | none => .fail .numberTooLong
      | some n =>
        if assignedRanges.any fun (lo, hi) => lo ≤ n && n ≤ hi then .done []
        else if 300000 ≤ n && n ≤ 309999 then
          .done [.error (invalidOid oid " (reserved OID range not part of the official Feed)")]
        else .done [.error (invalidOid oid " (unassigned OID range)")]

def firefoxScheme : Pattern :=
  oidScheme "1.3.6.1.4.1.25623.1.2.1." [advisoryYear '1', ".", asciiDigits 2 (some 3)]

/-- Judges an identifier of the product branch. Only Firefox has a scheme there. -/
def judgeProductBranch (s : Subject) (t oid : List Char) : Outcome Remark :=
  match Call.name.pattern.find? t with
  | none => .done [.error "VT is missing a script name!"]
  | some m =>
    if !Text.contains "1.3.6.1.4.1.25623.1.2.1.".toList oid then judgeRange s oid
    else if !("Mozilla Firefox Security Advisory".toList).isPrefixOf (m.group "value") then
      let shown := String.ofList oid
      .done [.error s!"script_oid() is using an OID that is reserved for 'Firefox' ({shown})"]
    else if firefoxScheme.occursIn oid then .done []
    else
      .done [.error (invalidOid oid (" (Firefox pattern: 1.3.6.1.4.1.25623.1.2.1." ++
        "[ADVISORY_YEAR].[ADVISORY_ID])"))]

def judgeOid (s : Subject) (t : List Char) : Outcome Remark :=
  match oid? t with
  | none => .done [.error "No valid script_oid() call found"]
  | some oid =>
    if !Text.contains oidStem.toList oid then .done [.error (invalidOid oid "")]
    else if Text.contains "1.3.6.1.4.1.25623.1.1.".toList oid then
      .done (judgeVendorBranch t oid)
    else if Text.contains "1.3.6.1.4.1.25623.1.2.".toList oid then judgeProductBranch s t oid
    else judgeRange s oid

def validOid : FileCheck where
  name := "check_valid_oid"
  title := "CheckValidOID"
  run s _ := s.withText fun t => s.unlessInclude (judgeOid s t)

end NaslLint.Checks
